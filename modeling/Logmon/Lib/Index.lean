/-
# An index of a list by key

A map from keys to the lists of what is filed under them, which holds no empty
list: a key with nothing under it is not in the map. `Indexes m f` says that
the map `m` files `f k` under every key `k`; filing one more value and editing
what is filed under one key keep it so.

A second kind of index keeps one position for a key, the last:
`lastPosition`.

Key definitions: `listed`, `Indexes`, `editAt`, `lastPosition`.
Key theorems: `Indexes.push`, `Indexes.editAt`, `Indexes.ne_nil`,
`lastPosition_append`, `lastPosition_eq_some_iff`.
-/
import Logmon.Lib.FMap
import Mathlib.Logic.Function.Basic

namespace Logmon
namespace Lib

variable {K V : Type} [DecidableEq K]

/-- A list as it stands in an index: nothing for the empty one. -/
def listed {V : Type} (l : List V) : Option (List V) := if l = [] then none else some l

@[simp] theorem listed_nil {V : Type} : listed ([] : List V) = none := rfl

theorem listed_of_ne {V : Type} {l : List V} (h : l ≠ []) : listed l = some l := if_neg h

@[simp] theorem getD_listed {V : Type} (l : List V) : (listed l).getD [] = l := by
  by_cases h : l = []
  · rw [h]
    rfl
  · rw [listed_of_ne h, Option.getD_some]

/-- The map files `f k` under every key `k`. -/
def Indexes (m : FMap K (List V)) (f : K → List V) : Prop := ∀ k, m.get? k = listed (f k)

/-- Edit what is filed under a key, and drop the key when nothing is left. -/
def editAt (m : FMap K (List V)) (k : K) (g : List V → List V) : FMap K (List V) :=
  match m.get? k with
  | none => m
  | some l => if (g l).isEmpty then m.erase k else m.insert k (g l)

variable {m : FMap K (List V)} {f : K → List V}

theorem indexes_empty : Indexes (∅ : FMap K (List V)) fun _ => [] := fun _ => rfl

/-- An index holds no empty list. -/
theorem Indexes.ne_nil (h : Indexes m f) {k : K} {l : List V} (hl : m.get? k = some l) : l ≠ [] := by
  rintro rfl
  rw [h k] at hl
  unfold listed at hl
  split at hl
  · simp at hl
  · rename_i hne
    exact hne (Option.some.inj hl)

theorem Indexes.push (h : Indexes m f) (k : K) (v : V) :
    Indexes (m.insert k ((m.get? k).getD [] ++ [v])) (Function.update f k (f k ++ [v])) := by
  intro k'
  rw [FMap.get?_insert, h k, getD_listed]
  by_cases hk : k' = k
  · rw [if_pos hk, hk, Function.update_self, listed_of_ne (by simp)]
  · rw [if_neg hk, Function.update_of_ne hk, h k']

theorem Indexes.editAt (h : Indexes m f) (k : K) {g : List V → List V} (hg : g [] = []) :
    Indexes (editAt m k g) (Function.update f k (g (f k))) := by
  intro k'
  unfold Lib.editAt
  by_cases hf : f k = []
  · have hnone : m.get? k = none := by rw [h k, hf, listed_nil]
    rw [hnone, hf, hg, ← hf, Function.update_eq_self]
    exact h k'
  · have hsome : m.get? k = some (f k) := by rw [h k, listed_of_ne hf]
    rw [hsome]
    simp only
    by_cases hleft : g (f k) = []
    · rw [if_pos (by simpa using hleft), hleft, FMap.get?_erase]
      by_cases hk : k' = k
      · rw [if_pos hk, hk, Function.update_self, listed_nil]
      · rw [if_neg hk, Function.update_of_ne hk, h k']
    · rw [if_neg (by simpa using hleft), FMap.get?_insert]
      by_cases hk : k' = k
      · rw [if_pos hk, hk, Function.update_self, listed_of_ne hleft]
      · rw [if_neg hk, Function.update_of_ne hk, h k']

/-! ### The last position -/

/-- The last position whose element `p` accepts. -/
def lastPosition {α : Type} (p : α → Bool) : List α → Option ℕ
  | [] => none
  | a :: l =>
    match lastPosition p l with
    | some j => some (j + 1)
    | none => if p a then some 0 else none

variable {α : Type} {p : α → Bool}

theorem lastPosition_append (a : α) : ∀ l : List α,
    lastPosition p (l ++ [a]) = if p a then some l.length else lastPosition p l
  | [] => by
    rw [List.nil_append, lastPosition, lastPosition]
    rfl
  | b :: l => by
    rw [List.cons_append, lastPosition, lastPosition_append a l]
    by_cases ha : p a = true
    · rw [if_pos ha, if_pos ha]
      rfl
    · rw [if_neg ha, if_neg ha, lastPosition]

theorem lastPosition_eq_none_iff : ∀ {l : List α}, lastPosition p l = none ↔ ∀ a ∈ l, p a = false
  | [] => by simp [lastPosition]
  | a :: l => by
    rw [lastPosition, List.forall_mem_cons, ← lastPosition_eq_none_iff]
    cases hl : lastPosition p l with
    | some j => simp
    | none => cases ha : p a <;> simp

/-- The last position has an accepted element, and no later one has. -/
theorem lastPosition_eq_some_iff : ∀ {l : List α} {j : ℕ}, lastPosition p l = some j ↔
    (∃ a, l[j]? = some a ∧ p a = true) ∧ ∀ k a, j < k → l[k]? = some a → p a = false
  | [], j => by simp [lastPosition]
  | a :: l, j => by
    rw [lastPosition]
    cases hl : lastPosition p l with
    | some i =>
      obtain ⟨⟨b, hb, hpb⟩, hlater⟩ := lastPosition_eq_some_iff.mp hl
      simp only [Option.some.injEq]
      constructor
      · rintro rfl
        refine ⟨⟨b, by simpa using hb, hpb⟩, fun k c hk hc => ?_⟩
        obtain ⟨k, rfl⟩ : ∃ k', k = k' + 1 := ⟨k - 1, by omega⟩
        exact hlater k c (by omega) (by simpa using hc)
      · rintro ⟨⟨c, hc, hpc⟩, hafter⟩
        by_contra hne
        cases j with
        | zero =>
          have := hafter (i + 1) b (by omega) (by simpa using hb)
          rw [hpb] at this
          exact absurd this (by simp)
        | succ j =>
          rcases Nat.lt_trichotomy i j with hlt | heq | hgt
          · have := hlater j c hlt (by simpa using hc)
            rw [hpc] at this
            exact absurd this (by simp)
          · exact hne (by rw [heq])
          · have := hafter (i + 1) b (by omega) (by simpa using hb)
            rw [hpb] at this
            exact absurd this (by simp)
    | none =>
      have hnone := lastPosition_eq_none_iff.mp hl
      simp only
      constructor
      · intro h
        split at h
        · rename_i ha
          obtain rfl : 0 = j := Option.some.inj h
          refine ⟨⟨a, rfl, ha⟩, fun k c hk hc => ?_⟩
          obtain ⟨k, rfl⟩ : ∃ k', k = k' + 1 := ⟨k - 1, by omega⟩
          exact hnone c (List.mem_of_getElem? (by simpa using hc))
        · cases h
      · rintro ⟨⟨c, hc, hpc⟩, -⟩
        cases j with
        | zero =>
          obtain rfl : a = c := by simpa using hc
          rw [if_pos hpc]
        | succ j =>
          have := hnone c (List.mem_of_getElem? (by simpa using hc))
          rw [hpc] at this
          exact absurd this (by simp)

end Lib
end Logmon
