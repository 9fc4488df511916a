/-
# A directory under renames

Files under names, changed by renames alone. A rename may fail without effect,
which `works` decides, and otherwise replaces what stands at its target. A
disk remembers the directory before each rename that worked: these are what a
crash can leave.

A rename to a name that is free loses nothing (`perm_moved`).

Key definitions: `moved`, `Disk`, `Disk.rename`, `Disk.visited`,
`Disk.Always`, `firstFree`.
Key theorems: `perm_moved`, `Disk.rename_cases`, `firstFree_spec`.
-/
import Logmon.Lib.FMap
import Mathlib.Data.List.Perm.Subperm

namespace Logmon
namespace Lib

variable {N F : Type}

/-- The directory, and what it was before each rename, latest first. -/
structure Disk (N F : Type) where
  dir : FMap N F
  past : List (FMap N F)

namespace Disk

def start (d : FMap N F) : Disk N F := ⟨d, []⟩

/-- The directories there have been, in order. -/
def visited (s : Disk N F) : List (FMap N F) := s.past.reverse ++ [s.dir]

/-- Every directory there has been. -/
structure Always (P : FMap N F → Prop) (s : Disk N F) : Prop where
  now : P s.dir
  before : ∀ d ∈ s.past, P d

variable {P Q : FMap N F → Prop} {s : Disk N F}

theorem always_start {d : FMap N F} (h : P d) : (start d).Always P := ⟨h, fun _ h => absurd h List.not_mem_nil⟩

theorem Always.visited (h : s.Always P) : ∀ d ∈ s.visited, P d := by
  intro d hd
  rcases List.mem_append.mp hd with hd | hd
  · exact h.before d (List.mem_reverse.mp hd)
  · rw [List.mem_singleton.mp hd]
    exact h.now

theorem Always.mono (h : s.Always P) (hPQ : ∀ d, P d → Q d) : s.Always Q :=
  ⟨hPQ _ h.now, fun d hd => hPQ d (h.before d hd)⟩

theorem Always.next (h : s.Always P) {d : FMap N F} (hd : P d) : Always P ⟨d, s.dir :: s.past⟩ := by
  refine ⟨hd, fun d' hd' => ?_⟩
  rcases List.mem_cons.mp hd' with rfl | hd'
  · exact h.now
  · exact h.before d' hd'

end Disk

/-! ### Renames -/

variable [DecidableEq N]

/-- The file `f` at `src` is then at `dst`. -/
def moved (d : FMap N F) (src dst : N) (f : F) : FMap N F := (d.erase src).insert dst f

theorem get?_moved (d : FMap N F) (src dst n : N) (f : F) :
    (moved d src dst f).get? n = if n = dst then some f else if n = src then none else d.get? n := by
  unfold moved
  rw [FMap.get?_insert, FMap.get?_erase]

/-- **A move to a free name keeps every file.** -/
theorem perm_moved {d : FMap N F} {src dst : N} {f : F} (hsrc : d.get? src = some f) (hdst : d.get? dst = none) :
    ((moved d src dst f).entries.map Prod.snd).Perm (d.entries.map Prod.snd) := by
  have hfree : (d.erase src).get? dst = none := by
    rw [FMap.get?_erase, hdst, ite_self]
  have hentries : (moved d src dst f).entries = (dst, f) :: (d.erase src).entries := by
    show (dst, f) :: ((d.erase src).erase dst).entries = _
    rw [FMap.entries_erase_of_none hfree]
  rw [hentries]
  exact ((FMap.perm_erase hsrc).map Prod.snd).symm

namespace Disk

def taken (s : Disk N F) (n : N) : Bool := (s.dir.get? n).isSome

/-- Whether it succeeded, and the disk after it. -/
def rename (works : N → N → Bool) (src dst : N) (s : Disk N F) : Bool × Disk N F :=
  match s.dir.get? src with
  | none => (false, s)
  | some f => if works src dst then (true, ⟨moved s.dir src dst f, s.dir :: s.past⟩) else (false, s)

/-- A rename leaves the disk alone, or moves a file. -/
theorem rename_cases (works : N → N → Bool) (src dst : N) (s : Disk N F) :
    rename works src dst s = (false, s) ∧ (s.dir.get? src = none ∨ works src dst = false) ∨
    ∃ f, s.dir.get? src = some f ∧ rename works src dst s = (true, ⟨moved s.dir src dst f, s.dir :: s.past⟩) := by
  unfold rename
  split
  · rename_i hnone
    exact .inl ⟨rfl, .inl hnone⟩
  · rename_i f hf
    cases hw : works src dst with
    | true => exact .inr ⟨f, hf, if_pos rfl⟩
    | false => exact .inl ⟨if_neg Bool.false_ne_true, .inr rfl⟩

end Disk

/-! ### A name that is free -/

/-- The first of these names that nothing stands at. -/
def firstFree (d : FMap N F) (candidate : ℕ → N) : N :=
  (((List.range (d.entries.length + 1)).map candidate).find? fun n => (d.get? n).isNone).getD (candidate 0)

/-- Of names that are all different, one is free. -/
theorem firstFree_spec (d : FMap N F) {candidate : ℕ → N} (h : Function.Injective candidate) :
    d.get? (firstFree d candidate) = none ∧ ∃ i, firstFree d candidate = candidate i := by
  have hsome : ∃ n, ((List.range (d.entries.length + 1)).map candidate).find? (fun n => (d.get? n).isNone) = some n := by
    refine Option.isSome_iff_exists.mp ?_
    by_contra hnone
    rw [Option.not_isSome_iff_eq_none, List.find?_eq_none] at hnone
    -- else the directory has more names than files
    have hsub : (List.range (d.entries.length + 1)).map candidate ⊆ d.entries.map Prod.fst := by
      intro n hn
      have := hnone n hn
      rw [FMap.mem_keys_iff, Option.isSome_iff_ne_none]
      simpa using this
    have hle := (List.Nodup.subperm (List.nodup_range.map h) hsub).length_le
    rw [List.length_map, List.length_map, List.length_range] at hle
    omega
  obtain ⟨n, hn⟩ := hsome
  unfold firstFree
  rw [hn, Option.getD_some]
  refine ⟨by simpa using List.find?_some hn, ?_⟩
  obtain ⟨i, -, hi⟩ := List.mem_map.mp (List.mem_of_find?_eq_some hn)
  exact ⟨i, hi.symm⟩

end Lib
end Logmon
