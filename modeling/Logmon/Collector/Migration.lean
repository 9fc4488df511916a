/-
# Loading the collector directory

`load_all` of `collector/persist.rs`: every `.json` file of the directory is
read, a file that cannot be read is set aside, of several copies of one
collector the most recently modified is the collector and the others are set
aside, and each collector's file is moved to its canonical name, by way of a
staging name. All of it is renames, and each of them may fail. A name is taken
when the directory has it: links that lead nowhere, and file systems that fold
case, are left out.

What comes out does not depend on the renames (`loadAll_collectors`): one
collector for each owner and name, a most recently modified copy of it.

Key definitions: `DirFile`, `readOne`, `FileCopy.precedes`, `loadAll`,
`copiesOf`, `Wins`.
Key theorems: `sortedCopies_cons`, `wins_iff`, `collectorsOf_spec`.
-/
import Logmon.Collector.FileNames
import Logmon.Collector.Registry
import Logmon.Lib.Disk
import Mathlib.Data.List.Dedup
import Mathlib.Data.List.Sort
import Mathlib.Data.String.Basic

namespace Logmon

open Lib

/-! ### Files -/

/-- What `fs::read` gives for a file, or why it fails, and its modification
time where there is one. -/
structure DirFile (B : Type) where
  content : Except String B
  modified : Option ℤ

abbrev CollectorDir (B : Type) : Type := FMap FileName (DirFile B)

/-- What the loader is given: JSON, and the text of a path. -/
structure PersistEnv (B W : Type) where
  decode : B → Except String (PersistedCollector W)
  display : FileName → String

section Load

variable {B W : Type} (env : PersistEnv B W)

def readOne (f : DirFile B) : Except String (PersistedCollector W) :=
  match f.content with
  | .error e => .error e
  | .ok bytes =>
    match env.decode bytes with
    | .error e => .error ("unparseable: " ++ e)
    | .ok file =>
      if file.version > formatVersion then
        .error ("written by a newer logmon (format " ++ toString file.version ++ " > " ++ toString formatVersion ++ ")")
      else .ok file

def PersistedCollector.key (c : PersistedCollector W) : String × String := (c.owner, c.name)

/-- One readable copy of a collector file: where it is, when it was last
written, what it holds. -/
structure FileCopy (W : Type) where
  path : FileName
  modified : ℤ
  file : PersistedCollector W

def FileCopy.key (x : FileCopy W) : String × String := x.file.key

/-- Newest first; on a tie, the one already in place, then by path. -/
def FileCopy.precedes (canonical : FileName) (a b : FileCopy W) : Prop :=
  b.modified < a.modified ∨
    a.modified = b.modified ∧
      (a.path = canonical ∧ b.path ≠ canonical ∨ (a.path = canonical ↔ b.path = canonical) ∧ a.path ≤ b.path)

instance (canonical : FileName) : DecidableRel (FileCopy.precedes (W := W) canonical) := fun a b => by
  unfold FileCopy.precedes
  infer_instance

/-! ### Renames -/

section Renames

variable (works : FileName → FileName → Bool)

/-- Where the file went, or `none` if it was left where it is. -/
def setAside (suffix : String) (path : FileName) (s : Disk FileName (DirFile B)) :
    Option FileName × Disk FileName (DirFile B) :=
  let candidate := firstFree s.dir (asideName path suffix)
  match s.rename works path candidate with
  | (true, s) => (some candidate, s)
  | (false, s) => (none, s)

/-- `rename`, refusing to replace anything. -/
def renameNoClobber (src dst : FileName) (s : Disk FileName (DirFile B)) : Bool × Disk FileName (DirFile B) :=
  if s.taken dst then (false, s) else s.rename works src dst

/-! ### What is read -/

structure Reading (B W : Type) where
  disk : Disk FileName (DirFile B)
  copies : List (FileCopy W)
  quarantined : List (FileName × String)

/-- The copy at a path, or why there is none. -/
def readPath (d : CollectorDir B) (path : FileName) : Except String (FileCopy W) :=
  match d.get? path with
  | none => .error "No such file or directory (os error 2)"
  | some f => (readOne env f).map fun c => ⟨path, f.modified.getD 0, c⟩

def readStep (x : Reading B W) (path : FileName) : Reading B W :=
  match readPath env x.disk.dir path with
  | .ok copy => { x with copies := x.copies ++ [copy] }
  | .error reason =>
    match setAside works "corrupt" path x.disk with
    | (some moved, disk) => { x with disk, quarantined := x.quarantined ++ [(moved, reason)] }
    | (none, disk) =>
      { x with disk, quarantined := x.quarantined ++ [(path, reason ++ " (and it could not be moved aside)")] }

/-! ### Which copy is the collector -/

/-- A collector, where its file is and where it belongs. -/
structure Winner (W : Type) where
  path : FileName
  canonical : FileName
  file : PersistedCollector W

structure Settling (B W : Type) where
  disk : Disk FileName (DirFile B)
  winners : List (Winner W)
  /-- Which winner a copy lost to, and where it went. -/
  losers : List (ℕ × FileName)

def sortedCopies (copies : List (FileCopy W)) (key : String × String) : List (FileCopy W) :=
  (copies.filter fun x => x.key = key).insertionSort (FileCopy.precedes (collectorPath key.1 key.2))

def setAsideStale (index : ℕ) (x : Disk FileName (DirFile B) × List (ℕ × FileName)) (stale : FileCopy W) :
    Disk FileName (DirFile B) × List (ℕ × FileName) :=
  match setAside works "superseded" stale.path x.1 with
  | (some moved, disk) => (disk, x.2 ++ [(index, moved)])
  | (none, disk) => (disk, x.2)

def settleStep (copies : List (FileCopy W)) (x : Settling B W) (key : String × String) : Settling B W :=
  match sortedCopies copies key with
  -- a group has at least one copy
  | [] => x
  | w :: stale =>
    let (disk, losers) := stale.foldl (setAsideStale works x.winners.length) (x.disk, x.losers)
    ⟨disk, x.winners ++ [⟨w.path, collectorPath key.1 key.2, w.file⟩], losers⟩

/-- The order of `(String, String)`. -/
def keyLe (a b : String × String) : Prop := a.1 < b.1 ∨ a.1 = b.1 ∧ a.2 ≤ b.2

instance : DecidableRel keyLe := fun a b => by
  unfold keyLe
  infer_instance

def sortedKeys (copies : List (FileCopy W)) : List (String × String) :=
  (copies.map FileCopy.key).dedup.insertionSort keyLe

/-! ### Into place, in two moves -/

structure Staging (B : Type) where
  disk : Disk FileName (DirFile B)
  staged : List (ℕ × FileName)

def stageStep (x : Staging B) (q : Winner W × ℕ) : Staging B :=
  if q.1.path = q.1.canonical then x
  else
    let staging := stagingPath q.1.canonical
    -- already staged: a crash between the two moves of an earlier boot
    if q.1.path = staging then { x with staged := x.staged ++ [(q.2, staging)] }
    else
      match renameNoClobber works q.1.path staging x.disk with
      | (true, disk) => ⟨disk, x.staged ++ [(q.2, staging)]⟩
      | (false, disk) => ⟨disk, x.staged⟩

structure Placing (B : Type) where
  disk : Disk FileName (DirFile B)
  finalPaths : List FileName

def placeStep (winners : List (Winner W)) (x : Placing B) (q : ℕ × FileName) : Placing B :=
  match winners[q.1]? with
  | none => x
  | some w =>
    match renameNoClobber works q.2 w.canonical x.disk with
    | (true, disk) => ⟨disk, x.finalPaths.set q.1 w.canonical⟩
    | (false, disk) =>
      match renameNoClobber works q.2 w.path disk with
      | (true, disk) => ⟨disk, x.finalPaths.set q.1 w.path⟩
      | (false, disk) => ⟨disk, x.finalPaths.set q.1 q.2⟩

/-- Everything readable in the directory, plus what had to be set aside. -/
structure LoadOutcome (W : Type) where
  collectors : List (PersistedCollector W)
  quarantined : List (FileName × String)
  superseded : List (FileName × String)

def supersededText (finalPaths : List FileName) (q : ℕ × FileName) : FileName × String :=
  (q.2, "a newer copy of the same collector was loaded: " ++ env.display (finalPaths.getD q.1 []))

/-- Listed up front. -/
def jsonPaths (d : CollectorDir B) : List FileName := (d.entries.map Prod.fst).filter isJson

def readAll (d : CollectorDir B) : Reading B W := (jsonPaths d).foldl (readStep env works) ⟨.start d, [], []⟩

def settleAll (r : Reading B W) : Settling B W :=
  (sortedKeys r.copies).foldl (settleStep works r.copies) ⟨r.disk, [], []⟩

def stageAll (x : Settling B W) : Staging B := x.winners.zipIdx.foldl (stageStep works) ⟨x.disk, []⟩

def placeAll (x : Settling B W) (y : Staging B) : Placing B :=
  y.staged.foldl (placeStep works x.winners) ⟨y.disk, x.winners.map Winner.path⟩

def loadAll (d : CollectorDir B) : Disk FileName (DirFile B) × LoadOutcome W :=
  let r := readAll env works d
  let x := settleAll works r
  let z := placeAll works x (stageAll works x)
  (z.disk,
   { collectors := x.winners.map Winner.file
     quarantined := r.quarantined
     superseded := x.losers.map (supersededText env z.finalPaths) })

end Renames

/-! ### The copies of a directory -/

/-- The copy that a file is, if it is one. -/
def copyAt (q : FileName × DirFile B) : Option (FileCopy W) :=
  if isJson q.1 then
    match readOne env q.2 with
    | .ok c => some ⟨q.1, q.2.modified.getD 0, c⟩
    | .error _ => none
  else none

/-- The copy at a path, if there is one. -/
def copyIn (d : CollectorDir B) (path : FileName) : Option (FileCopy W) :=
  (d.get? path).bind fun f => copyAt env (path, f)

def copiesOf (d : CollectorDir B) : List (FileCopy W) := d.entries.filterMap (copyAt env)

/-- The copy that stands for its collector. -/
structure Wins (d : CollectorDir B) (key : String × String) (x : FileCopy W) : Prop where
  mem : x ∈ copiesOf env d
  key_eq : x.key = key
  first : ∀ y ∈ copiesOf env d, y.key = key → x.precedes (collectorPath key.1 key.2) y

/-- What a boot returns. -/
def collectorsOf (d : CollectorDir B) : List (PersistedCollector W) :=
  (sortedKeys (copiesOf env d)).filterMap fun key => (sortedCopies (copiesOf env d) key).head?.map FileCopy.file

variable {env} {d d' : CollectorDir B} {x y : FileCopy W} {key : String × String}

theorem copyAt_eq_some {q : FileName × DirFile B} : copyAt env q = some x ↔
    isJson q.1 = true ∧ readOne env q.2 = .ok x.file ∧ q.1 = x.path ∧ q.2.modified.getD 0 = x.modified := by
  unfold copyAt
  constructor
  · intro h
    split at h
    · rename_i hj
      split at h
      · rename_i c hc
        obtain rfl := Option.some.inj h
        exact ⟨hj, hc, rfl, rfl⟩
      · cases h
    · cases h
  · rintro ⟨hj, hc, h1, h2⟩
    rw [if_pos hj, hc]
    simp only [h1, h2]

theorem mem_copiesOf : x ∈ copiesOf env d ↔ isJson x.path = true ∧
    ∃ f, d.get? x.path = some f ∧ readOne env f = .ok x.file ∧ f.modified.getD 0 = x.modified := by
  unfold copiesOf
  rw [List.mem_filterMap]
  constructor
  · rintro ⟨q, hq, hx⟩
    obtain ⟨hj, hc, h1, h2⟩ := copyAt_eq_some.mp hx
    rw [h1] at hj
    refine ⟨hj, q.2, ?_, hc, h2⟩
    rw [← FMap.mem_iff, ← h1]
    exact hq
  · rintro ⟨hj, f, hf, hc, h2⟩
    exact ⟨(x.path, f), FMap.mem_iff.mpr hf, copyAt_eq_some.mpr ⟨hj, hc, rfl, h2⟩⟩

/-- The listed files have all the copies. -/
theorem filterMap_copyIn (d : CollectorDir B) : (jsonPaths d).filterMap (copyIn env d) = copiesOf env d := by
  unfold jsonPaths copiesOf
  rw [List.filterMap_filter, List.filterMap_map]
  refine List.filterMap_congr fun q hq => ?_
  have hget : d.get? q.1 = some q.2 := FMap.mem_iff.mp hq
  simp only [Function.comp, copyIn, hget, Option.bind_some]
  split
  · rfl
  · rename_i hj
    unfold copyAt
    rw [if_neg hj]

/-- There is one copy at a path. -/
theorem eq_of_path (hx : x ∈ copiesOf env d) (hy : y ∈ copiesOf env d) (h : x.path = y.path) : x = y := by
  obtain ⟨-, f, hf, hc, hm⟩ := mem_copiesOf.mp hx
  obtain ⟨-, f', hf', hc', hm'⟩ := mem_copiesOf.mp hy
  rw [← h, hf] at hf'
  obtain rfl := Option.some.inj hf'
  rw [hc] at hc'
  obtain ⟨path, modified, file⟩ := x
  obtain ⟨path', modified', file'⟩ := y
  simp only [FileCopy.mk.injEq]
  exact ⟨h, hm.symm.trans hm', Except.ok.inj hc'⟩

theorem nodup_copiesOf (d : CollectorDir B) : ((copiesOf env d).map FileCopy.path).Nodup := by
  have hsub : ∀ l : List (FileName × DirFile B),
      ((l.filterMap (copyAt env)).map FileCopy.path).Sublist (l.map Prod.fst) := by
    intro l
    induction l with
    | nil => exact .slnil
    | cons q l ih =>
      cases h : copyAt env q with
      | none =>
        rw [List.filterMap_cons_none h, List.map_cons]
        exact ih.cons _
      | some x =>
        rw [List.filterMap_cons_some h, List.map_cons, List.map_cons, (copyAt_eq_some.mp h).2.2.1]
        exact ih.cons_cons _
  exact d.nodup.sublist (hsub d.entries)

namespace FileCopy

variable {canonical : FileName} {z : FileCopy W}

theorem precedes_refl (x : FileCopy W) : x.precedes canonical x := .inr ⟨rfl, .inr ⟨Iff.rfl, le_rfl⟩⟩

theorem precedes_total (x y : FileCopy W) : x.precedes canonical y ∨ y.precedes canonical x := by
  unfold precedes
  rcases lt_trichotomy x.modified y.modified with h | h | h
  · exact .inr (.inl h)
  · by_cases h1 : x.path = canonical <;> by_cases h2 : y.path = canonical
    · rcases le_total x.path y.path with hle | hle
      · exact .inl (.inr ⟨h, .inr ⟨by simp [h1, h2], hle⟩⟩)
      · exact .inr (.inr ⟨h.symm, .inr ⟨by simp [h1, h2], hle⟩⟩)
    · exact .inl (.inr ⟨h, .inl ⟨h1, h2⟩⟩)
    · exact .inr (.inr ⟨h.symm, .inl ⟨h2, h1⟩⟩)
    · rcases le_total x.path y.path with hle | hle
      · exact .inl (.inr ⟨h, .inr ⟨by simp [h1, h2], hle⟩⟩)
      · exact .inr (.inr ⟨h.symm, .inr ⟨by simp [h1, h2], hle⟩⟩)
  · exact .inl (.inl h)

theorem precedes_trans (h : x.precedes canonical y) (h' : y.precedes canonical z) : x.precedes canonical z := by
  unfold precedes at *
  rcases h with h | ⟨hm, h⟩
  · rcases h' with h' | ⟨hm', -⟩
    · exact .inl (lt_trans h' h)
    · exact .inl (hm' ▸ h)
  · rcases h' with h' | ⟨hm', h'⟩
    · exact .inl (hm ▸ h')
    · refine .inr ⟨hm.trans hm', ?_⟩
      rcases h with ⟨h1, h2⟩ | ⟨h1, h2⟩
      · rcases h' with ⟨h3, -⟩ | ⟨h3, -⟩
        · exact absurd h3 h2
        · exact .inl ⟨h1, fun hz => h2 (h3.mpr hz)⟩
      · rcases h' with ⟨h3, h4⟩ | ⟨h3, h4⟩
        · exact .inl ⟨h1.mpr h3, h4⟩
        · exact .inr ⟨h1.trans h3, le_trans h2 h4⟩

/-- Two copies that precede each other are at one path. -/
theorem path_eq_of_precedes (h : x.precedes canonical y) (h' : y.precedes canonical x) : x.path = y.path := by
  unfold precedes at *
  rcases h with h | ⟨hm, h⟩
  · rcases h' with h' | ⟨hm', -⟩
    · exact absurd h (lt_asymm h')
    · exact absurd h (by rw [hm']; exact lt_irrefl _)
  · rcases h' with h' | ⟨-, h'⟩
    · exact absurd h' (by rw [hm]; exact lt_irrefl _)
    · rcases h with ⟨h1, h2⟩ | ⟨h1, h2⟩
      · rcases h' with ⟨h3, -⟩ | ⟨h3, -⟩
        · exact absurd h3 h2
        · exact absurd (h3.mpr h1) h2
      · rcases h' with ⟨h3, h4⟩ | ⟨-, h4⟩
        · exact absurd (h1.mpr h3) h4
        · exact le_antisymm h2 h4

theorem modified_le (h : x.precedes canonical y) : y.modified ≤ x.modified := by
  rcases h with h | ⟨hm, -⟩
  · exact le_of_lt h
  · exact le_of_eq hm.symm

end FileCopy

/-! ### What a group is sorted into -/

variable {copies stale : List (FileCopy W)}

theorem mem_sortedCopies : x ∈ sortedCopies copies key ↔ x ∈ copies ∧ x.key = key := by
  unfold sortedCopies
  rw [List.mem_insertionSort, List.mem_filter]
  simp

/-- **The first copy precedes the others.** -/
theorem sortedCopies_cons (h : sortedCopies copies key = x :: stale) :
    x ∈ copies ∧ x.key = key ∧ (∀ y ∈ copies, y.key = key → x.precedes (collectorPath key.1 key.2) y) ∧
      (∀ y ∈ copies, y.key = key → y = x ∨ y ∈ stale) ∧ ∀ y ∈ stale, y ∈ copies ∧ y.key = key := by
  have hmem : ∀ y, y ∈ x :: stale ↔ y ∈ copies ∧ y.key = key := fun y => h ▸ mem_sortedCopies
  have hsorted : (x :: stale).Pairwise (FileCopy.precedes (collectorPath key.1 key.2)) := by
    rw [← h]
    have : Std.Total (FileCopy.precedes (W := W) (collectorPath key.1 key.2)) := ⟨FileCopy.precedes_total⟩
    have : IsTrans _ (FileCopy.precedes (W := W) (collectorPath key.1 key.2)) := ⟨fun _ _ _ => FileCopy.precedes_trans⟩
    exact List.pairwise_insertionSort _ _
  obtain ⟨h1, h2⟩ := (hmem x).mp List.mem_cons_self
  refine ⟨h1, h2, fun y hy hk => ?_, fun y hy hk => List.mem_cons.mp ((hmem y).mpr ⟨hy, hk⟩),
    fun y hy => (hmem y).mp (List.mem_cons_of_mem _ hy)⟩
  rcases List.mem_cons.mp ((hmem y).mpr ⟨hy, hk⟩) with rfl | hy
  · exact FileCopy.precedes_refl _
  · exact (List.pairwise_cons.mp hsorted).1 y hy

/-- The others are at other paths. -/
theorem stale_path_ne (hnodup : (copies.map FileCopy.path).Nodup) (h : sortedCopies copies key = x :: stale)
    (hy : y ∈ stale) : y.path ≠ x.path := by
  have hperm : (x :: stale).Perm (copies.filter fun z => z.key = key) := h ▸ List.perm_insertionSort _ _
  have hpaths : ((x :: stale).map FileCopy.path).Nodup :=
    (hperm.map _).nodup_iff.mpr (hnodup.sublist (List.filter_sublist.map _))
  rw [List.map_cons, List.nodup_cons] at hpaths
  exact fun he => hpaths.1 (he ▸ List.mem_map_of_mem hy)

theorem Wins.unique (h : Wins env d key x) (h' : Wins env d key y) : x = y :=
  eq_of_path h.mem h'.mem
    (FileCopy.path_eq_of_precedes (h.first y h'.mem h'.key_eq) (h'.first x h.mem h.key_eq))

theorem wins_iff : Wins env d key x ↔ (sortedCopies (copiesOf env d) key).head? = some x := by
  have hof : ∀ {z stale}, sortedCopies (copiesOf env d) key = z :: stale → Wins env d key z := by
    intro z stale h
    obtain ⟨h1, h2, h3, -, -⟩ := sortedCopies_cons h
    exact ⟨h1, h2, h3⟩
  cases h : sortedCopies (copiesOf env d) key with
  | nil =>
    refine ⟨fun hw => ?_, fun h => by cases h⟩
    have := mem_sortedCopies.mpr ⟨hw.mem, hw.key_eq⟩
    rw [h] at this
    exact absurd this List.not_mem_nil
  | cons z stale =>
    rw [List.head?_cons, Option.some.injEq]
    exact ⟨fun hw => (hof h).unique hw, fun he => he ▸ hof h⟩

/-- A collector with a copy has one that wins. -/
theorem exists_wins (hx : x ∈ copiesOf env d) : ∃ z, Wins env d x.key z := by
  cases h : sortedCopies (copiesOf env d) x.key with
  | nil =>
    have := mem_sortedCopies.mpr ⟨hx, rfl⟩
    rw [h] at this
    exact absurd this List.not_mem_nil
  | cons z stale => exact ⟨z, wins_iff.mpr (by rw [h]; rfl)⟩

/-! ### The keys in order -/

theorem mem_sortedKeys : key ∈ sortedKeys copies ↔ ∃ x ∈ copies, x.key = key := by
  unfold sortedKeys
  rw [List.mem_insertionSort, List.mem_dedup, List.mem_map]

theorem nodup_sortedKeys (copies : List (FileCopy W)) : (sortedKeys copies).Nodup :=
  (List.perm_insertionSort _ _).nodup_iff.mpr (List.nodup_dedup _)

theorem keyLe_antisymm {a b : String × String} (h : keyLe a b) (h' : keyLe b a) : a = b := by
  rcases h with h | ⟨h1, h2⟩
  · rcases h' with h' | ⟨h1', -⟩
    · exact absurd h (lt_asymm h')
    · exact absurd h (by rw [h1']; exact lt_irrefl _)
  · rcases h' with h' | ⟨-, h2'⟩
    · exact absurd h' (by rw [h1]; exact lt_irrefl _)
    · exact Prod.ext h1 (le_antisymm h2 h2')

theorem pairwise_sortedKeys (copies : List (FileCopy W)) : (sortedKeys copies).Pairwise keyLe := by
  have : Std.Total keyLe := by
    refine ⟨fun a b => ?_⟩
    unfold keyLe
    rcases lt_trichotomy a.1 b.1 with h | h | h
    · exact .inl (.inl h)
    · rcases le_total a.2 b.2 with h' | h'
      · exact .inl (.inr ⟨h, h'⟩)
      · exact .inr (.inr ⟨h.symm, h'⟩)
    · exact .inr (.inl h)
  have : IsTrans _ keyLe := by
    refine ⟨fun a b c h h' => ?_⟩
    unfold keyLe at *
    rcases h with h | ⟨h1, h2⟩
    · rcases h' with h' | ⟨h1', -⟩
      · exact .inl (lt_trans h h')
      · exact .inl (h1' ▸ h)
    · rcases h' with h' | ⟨h1', h2'⟩
      · exact .inl (h1 ▸ h')
      · exact .inr ⟨h1.trans h1', le_trans h2 h2'⟩
  exact List.pairwise_insertionSort _ _

/-- The keys in order are determined by which there are. -/
theorem sortedKeys_congr {copies copies' : List (FileCopy W)}
    (h : ∀ key, (∃ x ∈ copies, x.key = key) ↔ ∃ x ∈ copies', x.key = key) : sortedKeys copies = sortedKeys copies' := by
  have hperm : (sortedKeys copies).Perm (sortedKeys copies') := by
    refine (List.perm_ext_iff_of_nodup (nodup_sortedKeys _) (nodup_sortedKeys _)).mpr fun key => ?_
    rw [mem_sortedKeys, mem_sortedKeys]
    exact h key
  exact hperm.eq_of_pairwise (fun _ _ _ _ => keyLe_antisymm) (pairwise_sortedKeys _) (pairwise_sortedKeys _)

/-! ### The collectors -/

/-- The same copies, as far as their contents go, stand for the same
collectors. -/
def SameWinners (env : PersistEnv B W) (d d' : CollectorDir B) : Prop :=
  ∀ key c, (∃ x, Wins env d key x ∧ x.file = c) ↔ ∃ x, Wins env d' key x ∧ x.file = c

theorem SameWinners.collectorsOf_eq (h : SameWinners env d d') : collectorsOf env d = collectorsOf env d' := by
  have hkeys : sortedKeys (copiesOf env d) = sortedKeys (copiesOf env d') := by
    have hsub : ∀ {a b : CollectorDir B}, (∀ key c, (∃ x, Wins env a key x ∧ x.file = c) →
        ∃ x, Wins env b key x ∧ x.file = c) → ∀ key, (∃ x ∈ copiesOf env a, x.key = key) →
        ∃ x ∈ copiesOf env b, x.key = key := by
      rintro a b hab key ⟨x, hx, rfl⟩
      obtain ⟨z, hz⟩ := exists_wins hx
      obtain ⟨w, hw, -⟩ := hab x.key z.file ⟨z, hz, rfl⟩
      exact ⟨w, hw.mem, hw.key_eq⟩
    exact sortedKeys_congr fun key => ⟨hsub (fun key c => (h key c).mp) key, hsub (fun key c => (h key c).mpr) key⟩
  unfold collectorsOf
  rw [hkeys]
  refine List.filterMap_congr fun key _ => Option.ext fun c => ?_
  have hhead : ∀ a : CollectorDir B, (sortedCopies (copiesOf env a) key).head?.map FileCopy.file = some c ↔
      ∃ x, Wins env a key x ∧ x.file = c := by
    intro a
    rw [Option.map_eq_some_iff]
    exact exists_congr fun x => by rw [wins_iff]
  rw [hhead, hhead]
  exact h key c

/-- **One collector for each owner and name there is, a most recently modified
copy of it.** -/
theorem collectorsOf_spec (env : PersistEnv B W) (d : CollectorDir B) :
    ((collectorsOf env d).map PersistedCollector.key).Nodup ∧
    (∀ key, key ∈ (collectorsOf env d).map PersistedCollector.key ↔ ∃ x ∈ copiesOf env d, x.key = key) ∧
    ∀ c ∈ collectorsOf env d, ∃ x ∈ copiesOf env d, x.file = c ∧
      ∀ y ∈ copiesOf env d, y.key = x.key → y.modified ≤ x.modified := by
  have hkeys : (collectorsOf env d).map PersistedCollector.key = sortedKeys (copiesOf env d) := by
    unfold collectorsOf
    rw [List.map_filterMap]
    refine (List.filterMap_congr fun key hkey => ?_).trans List.filterMap_some
    obtain ⟨x, hx, rfl⟩ := mem_sortedKeys.mp hkey
    obtain ⟨z, hz⟩ := exists_wins hx
    rw [wins_iff.mp hz]
    exact congrArg some hz.key_eq
  refine ⟨?_, fun key => ?_, fun c hc => ?_⟩
  · rw [hkeys]
    exact nodup_sortedKeys _
  · rw [hkeys]
    exact mem_sortedKeys
  · obtain ⟨key, -, hhead⟩ := List.mem_filterMap.mp hc
    obtain ⟨x, hx, rfl⟩ := Option.map_eq_some_iff.mp hhead
    have hw := wins_iff.mpr hx
    refine ⟨x, hw.mem, rfl, fun y hy hk => FileCopy.modified_le (hw.first y hy (hk.trans hw.key_eq))⟩

end Load

end Logmon
