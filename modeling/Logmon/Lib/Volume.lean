/-
# A directory that can lose its power

Names bound to nodes, and nodes that hold contents. What is written to a node
is kept once the node is synced, and what is done to the directory once the
directory is: a loss of power takes the directory back to a point since then,
and leaves anything in a node that was not synced.

A file is replaced by filling a node under a scratch name, syncing it and
renaming it into place. Where names are only ever bound that way (`Sound`), a
loss of power leaves the other names what they read at some point since the
directory was synced (`now_outage`), and each operation says what they read
after it, and what they may come to read (`may`).

Key definitions: `Volume`, `Volume.create`, `Volume.rename`, `Volume.outage`,
`Volume.now`, `Volume.may`, `Volume.Sound`.
Key theorems: `Sound.create`, `Sound.rename`, `Sound.outage`, `now_outage`.
-/
import Logmon.Lib.FMap
import Mathlib.Logic.Function.Basic

namespace Logmon
namespace Lib

/-- A directory, what it was before each change since it was synced, latest
first, and its nodes. -/
structure Volume (N F : Type) where
  dir : FMap N ℕ
  past : List (FMap N ℕ)
  data : ℕ → F
  synced : ℕ → Bool
  fresh : ℕ

namespace Volume

variable {N F : Type}

def empty (x : F) : Volume N F := ⟨∅, [], fun _ => x, fun _ => true, 0⟩

/-- What a loss of power can take the directory back to. -/
def versions (v : Volume N F) : List (FMap N ℕ) := v.dir :: v.past

theorem dir_mem {v : Volume N F} : v.dir ∈ v.versions := List.mem_cons_self

variable [DecidableEq N]

def write (v : Volume N F) (i : ℕ) (x : F) : Volume N F :=
  { v with data := Function.update v.data i x, synced := Function.update v.synced i false }

/-- Bind a name to a node of its own. -/
def bind (v : Volume N F) (n : N) : Volume N F :=
  { v with dir := v.dir.insert n v.fresh, past := v.versions, fresh := v.fresh + 1 }

/-- The node that opening a name for writing gives. -/
def nodeFor (v : Volume N F) (n : N) : ℕ := (v.dir.get? n).getD v.fresh

/-- Open a name for writing, over whatever it held; `x` is an empty file. -/
def create (v : Volume N F) (n : N) (x : F) : Volume N F :=
  match v.dir.get? n with
  | some i => v.write i x
  | none => (v.bind n).write v.fresh x

def sync (v : Volume N F) (i : ℕ) : Volume N F := { v with synced := Function.update v.synced i true }

def rename (v : Volume N F) (a b : N) : Volume N F :=
  match v.dir.get? a with
  | some i => { v with dir := (v.dir.erase a).insert b i, past := v.versions }
  | none => v

def syncDir (v : Volume N F) : Volume N F := { v with past := [] }

/-- The power goes: the directory goes back by `k` changes, and the nodes that
were not synced are left with junk. -/
def outage (v : Volume N F) (k : ℕ) (junk : ℕ → F) : Volume N F :=
  { v with
    dir := v.versions.getD k v.dir
    past := []
    data := fun i => if v.synced i then v.data i else junk i
    synced := fun _ => true }

/-! ### What names read -/

variable (scratch : N → Bool)

/-- What the names that are no scratch names read in a directory. -/
def view (v : Volume N F) (d : FMap N ℕ) : N → Option F :=
  fun n => if scratch n then none else (d.get? n).map v.data

def now (v : Volume N F) : N → Option F := v.view scratch v.dir

/-- What they read now, and may after a loss of power. -/
def may (v : Volume N F) : List (N → Option F) := v.versions.map (v.view scratch)

/-- Names are bound to nodes apart, no node that a scratch name leads to has
another name in any version, and the nodes of the other names are synced. -/
structure Sound (v : Volume N F) : Prop where
  below : ∀ d ∈ v.versions, ∀ n i, d.get? n = some i → i < v.fresh
  apart : ∀ d ∈ v.versions, ∀ n n' i, d.get? n = some i → d.get? n' = some i → n = n'
  scratched : ∀ n i, scratch n = true → v.dir.get? n = some i →
    ∀ d ∈ v.versions, ∀ n', scratch n' = false → d.get? n' ≠ some i
  stands : ∀ d ∈ v.versions, ∀ n i, scratch n = false → d.get? n = some i → v.synced i = true

variable {scratch} {v : Volume N F} {n : N} {i : ℕ}

theorem now_mem_may : v.now scratch ∈ v.may scratch := List.mem_map_of_mem dir_mem

theorem sound_empty (x : F) : (empty x : Volume N F).Sound scratch := by
  have hnone : ∀ d ∈ (empty x : Volume N F).versions, ∀ n : N, d.get? n = none := by
    intro d hd n
    obtain rfl := List.mem_singleton.mp hd
    rfl
  refine ⟨fun d hd n i h => ?_, fun d hd n _ i h _ => ?_, fun n i _ h => ?_, fun d hd n i _ h => ?_⟩
  · simp [hnone d hd n] at h
  · simp [hnone d hd n] at h
  · simp [hnone _ dir_mem n] at h
  · simp [hnone d hd n] at h

/-- A view is of the nodes its names lead to. -/
theorem view_congr {v' : Volume N F} {d : FMap N ℕ}
    (h : ∀ n i, scratch n = false → d.get? n = some i → v'.data i = v.data i) : v'.view scratch d = v.view scratch d := by
  funext n
  unfold view
  cases hn : scratch n with
  | true => rfl
  | false =>
    cases hi : d.get? n with
    | none => rfl
    | some i => simp [h n i hn hi]

/-! ### A scratch name is filled -/

theorem Sound.write (h : v.Sound scratch) (hn : scratch n = true) (hi : v.dir.get? n = some i) (x : F) :
    (v.write i x).Sound scratch ∧ (v.write i x).now scratch = v.now scratch ∧
      (v.write i x).may scratch = v.may scratch := by
  have hne : ∀ d ∈ v.versions, ∀ n' j, scratch n' = false → d.get? n' = some j → j ≠ i := by
    rintro d hd n' j hn' hj rfl
    exact h.scratched n j hn hi d hd n' hn' hj
  have hview : ∀ d ∈ v.versions, (v.write i x).view scratch d = v.view scratch d := fun d hd =>
    view_congr fun n' j hn' hj => Function.update_of_ne (hne d hd n' j hn' hj) _ _
  refine ⟨⟨h.below, h.apart, h.scratched, fun d hd n' j hn' hj => ?_⟩, hview _ dir_mem, List.map_congr_left hview⟩
  rw [show (v.write i x).synced j = v.synced j from Function.update_of_ne (hne d hd n' j hn' hj) _ _]
  exact h.stands d hd n' j hn' hj

theorem Sound.bind (h : v.Sound scratch) (hn : scratch n = true) :
    (v.bind n).Sound scratch ∧ (v.bind n).now scratch = v.now scratch ∧
      (v.bind n).may scratch = v.now scratch :: v.may scratch := by
  have hnew : ∀ n', (v.dir.insert n v.fresh).get? n' = if n' = n then some v.fresh else v.dir.get? n' :=
    fun n' => FMap.get?_insert _ _ _ _
  have hother : ∀ n', scratch n' = false → (v.dir.insert n v.fresh).get? n' = v.dir.get? n' := by
    intro n' hn'
    rw [hnew, if_neg]
    rintro rfl
    simp [hn] at hn'
  have hunbound : ∀ d ∈ v.versions, ∀ n', d.get? n' ≠ some v.fresh := fun d hd n' hi =>
    Nat.lt_irrefl _ (h.below d hd n' _ hi)
  have hversions : ∀ d, d ∈ (v.bind n).versions ↔ d = v.dir.insert n v.fresh ∨ d ∈ v.versions := fun d => List.mem_cons
  have hview : (v.bind n).view scratch (v.dir.insert n v.fresh) = v.view scratch v.dir := by
    funext n'
    unfold view
    cases hn' : scratch n' with
    | true => rfl
    | false => rw [hother n' hn']; rfl
  refine ⟨⟨?_, ?_, ?_, ?_⟩, hview, ?_⟩
  · intro d hd n' j hj
    rcases (hversions d).mp hd with rfl | hd
    · rw [hnew] at hj
      split_ifs at hj with hn'
      · obtain rfl := Option.some.inj hj
        exact Nat.lt_succ_self _
      · exact Nat.lt_succ_of_lt (h.below _ dir_mem n' j hj)
    · exact Nat.lt_succ_of_lt (h.below d hd n' j hj)
  · intro d hd n1 n2 j h1 h2
    rcases (hversions d).mp hd with rfl | hd
    · rw [hnew] at h1 h2
      split_ifs at h1 h2 with hn1 hn2 hn2
      · rw [hn1, hn2]
      · rw [← h1] at h2
        exact absurd h2 (hunbound _ dir_mem n2)
      · rw [← h2] at h1
        exact absurd h1 (hunbound _ dir_mem n1)
      · exact h.apart _ dir_mem n1 n2 j h1 h2
    · exact h.apart d hd n1 n2 j h1 h2
  · intro n1 j hn1 hj d hd n' hn'
    have hold : ∀ d ∈ v.versions, d.get? n' ≠ some j := by
      intro d hd
      rw [show (v.bind n).dir.get? n1 = _ from hnew n1] at hj
      split_ifs at hj
      · rw [← hj]
        exact hunbound d hd n'
      · exact h.scratched n1 j hn1 hj d hd n' hn'
    rcases (hversions d).mp hd with rfl | hd
    · rw [hother n' hn']
      exact hold _ dir_mem
    · exact hold d hd
  · intro d hd n' j hn' hj
    rcases (hversions d).mp hd with rfl | hd
    · rw [hother n' hn'] at hj
      exact h.stands _ dir_mem n' j hn' hj
    · exact h.stands d hd n' j hn' hj
  · show (v.bind n).view scratch (v.dir.insert n v.fresh) :: v.may scratch = _
    rw [hview]
    rfl

/-- **Opening a scratch name changes no other name**, whichever node it gets. -/
theorem Sound.create (h : v.Sound scratch) (hn : scratch n = true) (x : F) :
    (v.create n x).Sound scratch ∧ (v.create n x).now scratch = v.now scratch ∧
      (∀ w ∈ (v.create n x).may scratch, w ∈ v.may scratch) ∧ (v.create n x).dir.get? n = some (v.nodeFor n) := by
  unfold Volume.create nodeFor
  cases hi : v.dir.get? n with
  | some i =>
    obtain ⟨hs, hnow, hmay⟩ := h.write hn hi x
    exact ⟨hs, hnow, fun w hw => by rwa [hmay] at hw, hi⟩
  | none =>
    obtain ⟨hs, hnow, hmay⟩ := h.bind hn
    have hbound : (v.bind n).dir.get? n = some v.fresh := by
      show (v.dir.insert n v.fresh).get? n = _
      rw [FMap.get?_insert, if_pos rfl]
    obtain ⟨hs', hnow', hmay'⟩ := hs.write hn hbound x
    refine ⟨hs', hnow'.trans hnow, fun w hw => ?_, hbound⟩
    rw [hmay', hmay] at hw
    rcases List.mem_cons.mp hw with rfl | hw
    · exact now_mem_may
    · exact hw

theorem Sound.sync (h : v.Sound scratch) (i : ℕ) : (v.sync i).Sound scratch := by
  refine ⟨h.below, h.apart, h.scratched, fun d hd n j hn hj => ?_⟩
  show Function.update v.synced i true j = true
  by_cases hji : j = i
  · rw [hji, Function.update_self]
  · rw [Function.update_of_ne hji]
    exact h.stands d hd n j hn hj

/-! ### And put in place -/

theorem rename_of_some {a b : N} (hi : v.dir.get? a = some i) :
    v.rename a b = { v with dir := (v.dir.erase a).insert b i, past := v.versions } := by
  unfold rename
  rw [hi]

/-- **A synced scratch node put in place** replaces what one name reads. -/
theorem Sound.rename {a b : N} (h : v.Sound scratch) (ha : scratch a = true) (hb : scratch b = false)
    (hi : v.dir.get? a = some i) (hsynced : v.synced i = true) :
    (v.rename a b).Sound scratch ∧ (v.rename a b).now scratch = Function.update (v.now scratch) b (some (v.data i)) ∧
      (v.rename a b).may scratch = (v.rename a b).now scratch :: v.may scratch := by
  rw [rename_of_some hi]
  have hnew : ∀ n, ((v.dir.erase a).insert b i).get? n = if n = b then some i else if n = a then none else v.dir.get? n := by
    intro n
    rw [FMap.get?_insert, FMap.get?_erase]
  have hold : ∀ {n j}, n ≠ b → ((v.dir.erase a).insert b i).get? n = some j → v.dir.get? n = some j ∧ j ≠ i := by
    intro n j hnb hj
    rw [hnew, if_neg hnb] at hj
    split_ifs at hj with hna
    refine ⟨hj, ?_⟩
    rintro rfl
    exact hna (h.apart _ dir_mem n a j hj hi)
  refine ⟨⟨?_, ?_, ?_, ?_⟩, ?_, rfl⟩
  · intro d hd n j hj
    rcases List.mem_cons.mp hd with rfl | hd
    · by_cases hnb : n = b
      · rw [hnew, if_pos hnb] at hj
        obtain rfl := Option.some.inj hj
        exact h.below _ dir_mem a i hi
      · exact h.below _ dir_mem n j (hold hnb hj).1
    · exact h.below d hd n j hj
  · intro d hd n1 n2 j h1 h2
    rcases List.mem_cons.mp hd with rfl | hd
    · by_cases hb1 : n1 = b
      · by_cases hb2 : n2 = b
        · rw [hb1, hb2]
        · rw [hnew, if_pos hb1] at h1
          exact absurd (Option.some.inj h1).symm (hold hb2 h2).2
      · by_cases hb2 : n2 = b
        · rw [hnew, if_pos hb2] at h2
          exact absurd (Option.some.inj h2).symm (hold hb1 h1).2
        · exact h.apart _ dir_mem n1 n2 j (hold hb1 h1).1 (hold hb2 h2).1
    · exact h.apart d hd n1 n2 j h1 h2
  · intro n j hn hj d hd n' hn'
    have hnb : n ≠ b := by
      rintro rfl
      simp [hn] at hb
    obtain ⟨hj, hji⟩ := hold hnb hj
    rcases List.mem_cons.mp hd with rfl | hd
    · intro hj'
      by_cases hb' : n' = b
      · rw [hnew, if_pos hb'] at hj'
        exact hji (Option.some.inj hj').symm
      · exact h.scratched n j hn hj _ dir_mem n' hn' (hold hb' hj').1
    · exact h.scratched n j hn hj d hd n' hn'
  · intro d hd n j hn hj
    rcases List.mem_cons.mp hd with rfl | hd
    · by_cases hnb : n = b
      · rw [hnew, if_pos hnb] at hj
        obtain rfl := Option.some.inj hj
        exact hsynced
      · exact h.stands _ dir_mem n j hn (hold hnb hj).1
    · exact h.stands d hd n j hn hj
  · funext n
    show (if scratch n then none else (((v.dir.erase a).insert b i).get? n).map v.data) = _
    rw [hnew]
    by_cases hnb : n = b
    · rw [hnb, Function.update_self, hb, if_pos rfl]
      rfl
    · rw [Function.update_of_ne hnb, if_neg hnb]
      show _ = if scratch n then none else (v.dir.get? n).map v.data
      by_cases hna : n = a
      · rw [hna, ha]
        rfl
      · rw [if_neg hna]

theorem Sound.syncDir (h : v.Sound scratch) : v.syncDir.Sound scratch ∧ v.syncDir.may scratch = [v.now scratch] := by
  have hmem : ∀ d ∈ v.syncDir.versions, d ∈ v.versions := by
    intro d hd
    obtain rfl := List.mem_singleton.mp hd
    exact dir_mem
  exact ⟨⟨fun d hd => h.below d (hmem d hd), fun d hd => h.apart d (hmem d hd),
    fun n i hn hi d hd => h.scratched n i hn hi d (hmem d hd), fun d hd => h.stands d (hmem d hd)⟩, rfl⟩

/-! ### The power goes -/

omit [DecidableEq N] in
theorem outage_dir_mem (k : ℕ) (junk : ℕ → F) : (v.outage k junk).dir ∈ v.versions := by
  show v.versions.getD k v.dir ∈ v.versions
  rw [List.getD_eq_getElem?_getD]
  cases hd : v.versions[k]? with
  | none => exact dir_mem
  | some d => exact List.mem_of_getElem? hd

theorem Sound.outage (h : v.Sound scratch) (k : ℕ) (junk : ℕ → F) : (v.outage k junk).Sound scratch := by
  have hmem : ∀ d ∈ (v.outage k junk).versions, d ∈ v.versions := by
    intro d hd
    obtain rfl := List.mem_singleton.mp hd
    exact outage_dir_mem k junk
  refine ⟨fun d hd => h.below d (hmem d hd), fun d hd => h.apart d (hmem d hd), ?_, fun _ _ _ _ _ _ => rfl⟩
  intro n i hn hi d hd n' hn' hi'
  obtain rfl := List.mem_singleton.mp hd
  obtain rfl := h.apart _ (outage_dir_mem k junk) n n' i hi hi'
  simp [hn] at hn'

/-- **After a loss of power every name reads what it read at one point** since
the directory was synced, the same for all names, and that is settled. -/
theorem now_outage (h : v.Sound scratch) (k : ℕ) (junk : ℕ → F) :
    (v.outage k junk).now scratch ∈ v.may scratch ∧ (v.outage k junk).may scratch = [(v.outage k junk).now scratch] := by
  refine ⟨List.mem_map.mpr ⟨_, outage_dir_mem k junk, ?_⟩, rfl⟩
  refine (view_congr fun n i hn hi => ?_).symm
  exact if_pos (h.stands _ (outage_dir_mem k junk) n i hn hi)

end Volume
end Lib
end Logmon
