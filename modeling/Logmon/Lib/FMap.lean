/-
# Finite maps without an order

A map with distinct keys of any type, as a list of its entries. What a hash
map promises: lookups after an insert, a removal and a `retain`, and that the
entries are the lookups.

Key definitions: `FMap`, `FMap.get?`, `FMap.insert`, `FMap.erase`,
`FMap.retain`, `FMap.upsert`, `FMap.collectBy`, `FMap.ofRows`, `MapOrder`.
Key theorems: `FMap.get?_insert`, `FMap.get?_erase`, `FMap.get?_retain`,
`FMap.get?_modify`, `FMap.mem_iff`, `FMap.sum_insert`, `FMap.perm_collectBy`,
`FMap.perm_ofRows`, `FMap.sum_ofRows_lt`.
-/
import Mathlib.Algebra.BigOperators.Group.List.Basic
import Mathlib.Data.List.Dedup
import Mathlib.Data.List.Induction
import Mathlib.Data.List.Nodup
import Mathlib.Tactic.Linarith

namespace Logmon
namespace Lib

/-- A map from `K` to `V`. -/
structure FMap (K V : Type) where
  entries : List (K × V)
  nodup : (entries.map Prod.fst).Nodup

namespace FMap

variable {K V : Type} [DecidableEq K]

instance : EmptyCollection (FMap K V) := ⟨⟨[], List.nodup_nil⟩⟩

def get? (m : FMap K V) (k : K) : Option V := (m.entries.find? fun p => p.1 = k).map Prod.snd

/-- Keep the entries `p` accepts. -/
def retain (m : FMap K V) (p : K → V → Bool) : FMap K V :=
  ⟨m.entries.filter fun q => p q.1 q.2, m.nodup.sublist (List.filter_sublist.map _)⟩

def erase (m : FMap K V) (k : K) : FMap K V := m.retain fun k' _ => k' ≠ k

/-- Insert, over whatever the key held. -/
def insert (m : FMap K V) (k : K) (v : V) : FMap K V where
  entries := (k, v) :: (m.erase k).entries
  nodup := by
    refine List.nodup_cons.mpr ⟨fun hk => ?_, (m.erase k).nodup⟩
    obtain ⟨q, hq, hqk⟩ := List.mem_map.mp hk
    have := (List.mem_filter.mp hq).2
    simp [hqk] at this

/-- Change what a key holds, where it stands. -/
def modify (m : FMap K V) (k : K) (f : V → V) : FMap K V where
  entries := m.entries.map fun q => if q.1 = k then (q.1, f q.2) else q
  nodup := by
    have hfst : (m.entries.map fun q => if q.1 = k then (q.1, f q.2) else q).map Prod.fst = m.entries.map Prod.fst := by
      rw [List.map_map]
      refine List.map_congr_left fun q _ => ?_
      simp only [Function.comp]
      split <;> rfl
    rw [hfst]
    exact m.nodup

/-- The entries are the lookups. -/
theorem mem_iff {m : FMap K V} {k : K} {v : V} : (k, v) ∈ m.entries ↔ m.get? k = some v := by
  unfold get?
  refine ⟨fun h => ?_, fun h => ?_⟩
  · cases hf : m.entries.find? fun p => p.1 = k with
    | none => exact absurd (decide_eq_true rfl) (List.find?_eq_none.mp hf _ h)
    | some q =>
      have hq : q.1 = k := by simpa using List.find?_some hf
      have hin : q ∈ m.entries := List.mem_of_find?_eq_some hf
      have hqv : q = (k, v) := List.inj_on_of_nodup_map m.nodup hin h hq
      rw [hqv]
      rfl
  · obtain ⟨q, hf, hv⟩ := Option.map_eq_some_iff.mp h
    have hq : q.1 = k := by simpa using List.find?_some hf
    rw [← hq, ← hv]
    exact List.mem_of_find?_eq_some hf

@[simp] theorem get?_empty (k : K) : (∅ : FMap K V).get? k = none := rfl

theorem get?_retain (m : FMap K V) (p : K → V → Bool) (k : K) :
    (m.retain p).get? k = (m.get? k).filter (p k) := by
  refine Option.ext fun v => ?_
  rw [← mem_iff, Option.filter_eq_some_iff, ← mem_iff]
  exact List.mem_filter

theorem get?_erase (m : FMap K V) (k k' : K) : (m.erase k).get? k' = if k' = k then none else m.get? k' := by
  unfold erase
  rw [get?_retain]
  by_cases h : k' = k
  · rw [if_pos h, h]
    cases m.get? k <;> simp
  · rw [if_neg h]
    cases m.get? k' <;> simp [h]

theorem get?_insert (m : FMap K V) (k k' : K) (v : V) :
    (m.insert k v).get? k' = if k' = k then some v else m.get? k' := by
  by_cases h : k' = k
  · rw [if_pos h, ← mem_iff, h]
    exact List.mem_cons_self
  · have hfind : (m.insert k v).get? k' = (m.erase k).get? k' := by
      have hne : ¬ k = k' := fun hk => h hk.symm
      simp [get?, insert, hne]
    rw [hfind, get?_erase, if_neg h, if_neg h]

/-- A change where a key stands moves no other key. -/
theorem get?_modify (m : FMap K V) (k k' : K) (f : V → V) :
    (m.modify k f).get? k' = if k' = k then (m.get? k').map f else m.get? k' := by
  refine Option.ext fun v => ?_
  rw [← mem_iff]
  simp only [modify, List.mem_map]
  constructor
  · rintro ⟨⟨a, b⟩, hq, he⟩
    have hget := mem_iff.mp hq
    by_cases ha : a = k
    · rw [if_pos ha] at he
      obtain ⟨rfl, rfl⟩ := Prod.mk.inj he
      rw [if_pos ha, hget]
      rfl
    · rw [if_neg ha] at he
      obtain ⟨rfl, rfl⟩ := Prod.mk.inj he
      rw [if_neg ha, hget]
  · intro h
    by_cases hk : k' = k
    · rw [if_pos hk] at h
      obtain ⟨w, hw, rfl⟩ := Option.map_eq_some_iff.mp h
      exact ⟨(k', w), mem_iff.mpr hw, if_pos hk⟩
    · rw [if_neg hk] at h
      exact ⟨(k', v), mem_iff.mpr h, if_neg hk⟩

/-- A change moves no key at all. -/
theorem keys_modify (m : FMap K V) (k : K) (f : V → V) :
    (m.modify k f).entries.map Prod.fst = m.entries.map Prod.fst := by
  simp only [modify, List.map_map]
  refine List.map_congr_left fun q _ => ?_
  simp only [Function.comp]
  split <;> rfl

/-! ### Rows that are made when first written to -/

/-- Apply `f` to what the key holds, or to `d` where it holds nothing. -/
def upsert (m : FMap K V) (k : K) (d : V) (f : V → V) : FMap K V := m.insert k (f ((m.get? k).getD d))

theorem mem_keys_iff {m : FMap K V} {k : K} : k ∈ m.entries.map Prod.fst ↔ (m.get? k).isSome := by
  rw [Option.isSome_iff_exists, List.mem_map]
  constructor
  · rintro ⟨⟨a, v⟩, hq, rfl⟩
    exact ⟨v, mem_iff.mp hq⟩
  · rintro ⟨v, hv⟩
    exact ⟨(k, v), mem_iff.mpr hv, rfl⟩

theorem mem_keys_upsert {m : FMap K V} {k k' : K} {d : V} {f : V → V} :
    k' ∈ (m.upsert k d f).entries.map Prod.fst ↔ k' = k ∨ k' ∈ m.entries.map Prod.fst := by
  rw [mem_keys_iff, mem_keys_iff, upsert, get?_insert]
  by_cases h : k' = k <;> simp [h]

/-- The entries are those of the key and those of the others. -/
theorem perm_erase {m : FMap K V} {k : K} {v : V} (h : m.get? k = some v) :
    m.entries.Perm ((k, v) :: (m.erase k).entries) := by
  refine (List.perm_ext_iff_of_nodup (List.Nodup.of_map _ m.nodup) ?_).mpr fun q => ?_
  · exact List.Nodup.of_map Prod.fst (m.insert k v).nodup
  · obtain ⟨a, w⟩ := q
    rw [List.mem_cons, mem_iff, mem_iff, get?_erase]
    by_cases ha : a = k
    · rw [if_pos ha, ha, h]
      simp [eq_comm]
    · simp [ha]

theorem entries_erase_of_none {m : FMap K V} {k : K} (h : m.get? k = none) : (m.erase k).entries = m.entries := by
  refine List.filter_eq_self.mpr fun q hq => ?_
  have hne : q.1 ≠ k := by
    intro hk
    have hsome := mem_iff.mp (show (q.1, q.2) ∈ m.entries from hq)
    rw [hk, h] at hsome
    cases hsome
  simpa using hne

/-- **A row's growth is the map's**: what a key's row gains under an additive
reading, the sum over the rows gains. -/
theorem sum_insert {M : Type} [AddCommMonoid M] (g : V → M) {m : FMap K V} {k : K} {v : V} {x : M}
    (h : g v = ((m.get? k).map g).getD 0 + x) :
    ((m.insert k v).entries.map fun q => g q.2).sum = (m.entries.map fun q => g q.2).sum + x := by
  have hsum : ((m.insert k v).entries.map fun q => g q.2).sum =
      g v + ((m.erase k).entries.map fun q => g q.2).sum := rfl
  rw [hsum, h]
  cases hk : m.get? k with
  | none => rw [Option.map_none, Option.getD_none, zero_add, entries_erase_of_none hk, add_comm]
  | some w =>
    rw [Option.map_some, Option.getD_some, ((perm_erase hk).map _).sum_eq, List.map_cons, List.sum_cons,
      add_right_comm]

theorem sum_upsert {M : Type} [AddCommMonoid M] (g : V → M) (m : FMap K V) (k : K) (d : V) (f : V → V) (x : M)
    (hd : g d = 0) (hf : ∀ v, g (f v) = g v + x) :
    ((m.upsert k d f).entries.map fun q => g q.2).sum = (m.entries.map fun q => g q.2).sum + x := by
  refine sum_insert g ?_
  rw [hf]
  cases m.get? k with
  | none => rw [Option.getD_none, hd]; rfl
  | some v => rfl

theorem length_upsert (m : FMap K V) (k : K) (d : V) (f : V → V) :
    (m.upsert k d f).entries.length = if (m.get? k).isSome then m.entries.length else m.entries.length + 1 := by
  have hlen : (m.upsert k d f).entries.length = (m.erase k).entries.length + 1 := rfl
  rw [hlen]
  cases hk : m.get? k with
  | none => rw [entries_erase_of_none hk]; rfl
  | some v => rw [(perm_erase hk).length_eq]; rfl

/-- The values filed under their keys, each key's in order. -/
def collectBy {A : Type} (key : A → K) (val : A → V) (l : List A) : FMap K (List V) :=
  l.foldl (fun m a => m.upsert (key a) [] (· ++ [val a])) ∅

theorem get?_foldl_upsert {A : Type} (key : A → K) (val : A → V) (k : K) :
    ∀ (l : List A) (m : FMap K (List V)),
      ((l.foldl (fun m a => m.upsert (key a) [] (· ++ [val a])) m).get? k).getD [] =
        (m.get? k).getD [] ++ (l.filter fun a => key a = k).map val
  | [], _ => (List.append_nil _).symm
  | a :: l, m => by
    rw [List.foldl_cons, get?_foldl_upsert key val k l, upsert, get?_insert, List.filter_cons]
    by_cases h : k = key a
    · rw [if_pos h, h, decide_eq_true rfl, if_pos rfl, Option.getD_some, List.append_assoc]
      rfl
    · rw [if_neg h, decide_eq_false (Ne.symm h)]
      rfl

theorem getD_collectBy {A : Type} (key : A → K) (val : A → V) (l : List A) (k : K) :
    ((collectBy key val l).get? k).getD [] = (l.filter fun a => key a = k).map val :=
  (get?_foldl_upsert key val k l ∅).trans (List.nil_append _)

theorem mem_keys_collectBy {A : Type} {key : A → K} {val : A → V} {l : List A} {k : K} :
    k ∈ (collectBy key val l).entries.map Prod.fst ↔ k ∈ l.map key := by
  have hfold : ∀ (l : List A) (m : FMap K (List V)),
      k ∈ (l.foldl (fun m a => m.upsert (key a) [] (· ++ [val a])) m).entries.map Prod.fst ↔
        k ∈ m.entries.map Prod.fst ∨ k ∈ l.map key := by
    intro l
    induction l with
    | nil => simp
    | cons a l ih =>
      intro m
      rw [List.foldl_cons, ih, mem_keys_upsert, List.map_cons, List.mem_cons]
      tauto
  exact (hfold l ∅).trans (or_iff_right List.not_mem_nil)

/-- **A collection has a row for each key**, with the values filed under it. -/
theorem perm_collectBy {A : Type} (key : A → K) (val : A → V) (l : List A) :
    (collectBy key val l).entries.Perm
      ((l.map key).dedup.map fun k => (k, (l.filter fun a => key a = k).map val)) := by
  have hnodup : ((l.map key).dedup.map fun k => (k, (l.filter fun a => key a = k).map val)).Nodup :=
    (List.nodup_dedup _).map fun _ _ h => congrArg Prod.fst h
  refine (List.perm_ext_iff_of_nodup (List.Nodup.of_map _ (collectBy key val l).nodup) hnodup).mpr ?_
  rintro ⟨k, vs⟩
  rw [mem_iff, List.mem_map]
  constructor
  · intro h
    have hkey := mem_keys_collectBy.mp (mem_keys_iff.mpr (Option.isSome_of_eq_some h))
    refine ⟨k, List.mem_dedup.mpr hkey, ?_⟩
    rw [← getD_collectBy key val, h, Option.getD_some]
  · rintro ⟨k, hk, he⟩
    obtain ⟨rfl, rfl⟩ := Prod.mk.inj he
    obtain ⟨vs, hvs⟩ := Option.isSome_iff_exists.mp
      (mem_keys_iff.mp ((@mem_keys_collectBy _ _ _ _ key val _ _).mpr (List.mem_dedup.mp hk)))
    rw [hvs, ← getD_collectBy key val l, hvs, Option.getD_some]

/-! ### Collecting rows -/

/-- A map collected from rows: of several rows of one key, the last stays. -/
def ofRows (rows : List (K × V)) : FMap K V := rows.foldl (fun m r => m.insert r.1 r.2) ∅

@[simp] theorem ofRows_nil : (ofRows [] : FMap K V) = ∅ := rfl

theorem ofRows_concat (rows : List (K × V)) (r : K × V) : ofRows (rows ++ [r]) = (ofRows rows).insert r.1 r.2 := by
  simp [ofRows]

/-- What a collected map holds was in a row. -/
theorem mem_of_mem_ofRows {rows : List (K × V)} {q : K × V} (h : q ∈ (ofRows rows).entries) : q ∈ rows := by
  induction rows using List.reverseRecOn with
  | nil => cases h
  | append_singleton rows r ih =>
    rw [ofRows_concat] at h
    rcases List.mem_cons.mp h with rfl | h
    · exact List.mem_append_right _ List.mem_cons_self
    · exact List.mem_append_left _ (ih (List.mem_filter.mp h).1)

theorem get?_ofRows_isSome {rows : List (K × V)} {k : K} : ((ofRows rows).get? k).isSome ↔ k ∈ rows.map Prod.fst := by
  induction rows using List.reverseRecOn with
  | nil => simp
  | append_singleton rows r ih =>
    rw [ofRows_concat, get?_insert, List.map_append, List.mem_append, ← ih]
    by_cases hk : k = r.1 <;> simp [hk]

/-- Rows of different keys are all there. -/
theorem perm_ofRows {rows : List (K × V)} (h : (rows.map Prod.fst).Nodup) : (ofRows rows).entries.Perm rows := by
  induction rows using List.reverseRecOn with
  | nil => exact List.Perm.refl _
  | append_singleton rows r ih =>
    rw [List.map_append, List.nodup_append] at h
    obtain ⟨hrows, -, hnew⟩ := h
    have hnone : (ofRows rows).get? r.1 = none := by
      rw [← Option.not_isSome_iff_eq_none, get?_ofRows_isSome]
      exact fun hin => hnew _ hin _ (List.mem_singleton_self _) rfl
    have hentries : (ofRows (rows ++ [r])).entries = r :: (ofRows rows).entries := by
      rw [ofRows_concat]
      show (r.1, r.2) :: ((ofRows rows).erase r.1).entries = _
      rw [entries_erase_of_none hnone]
    rw [hentries]
    exact ((ih hrows).cons r).trans (List.perm_append_singleton r rows).symm

/-- The last row counts, and the others but the one it found. -/
theorem sum_ofRows_concat (g : V → ℕ) (rows : List (K × V)) (r : K × V) :
    ((ofRows (rows ++ [r])).entries.map fun q => g q.2).sum =
      g r.2 + (((ofRows rows).erase r.1).entries.map fun q => g q.2).sum := by
  rw [ofRows_concat]
  rfl

theorem sum_erase_add (g : V → ℕ) (m : FMap K V) (k : K) :
    ((m.erase k).entries.map fun q => g q.2).sum + ((m.get? k).map g).getD 0 =
      (m.entries.map fun q => g q.2).sum := by
  cases hk : m.get? k with
  | none => rw [entries_erase_of_none hk]; rfl
  | some v => rw [((perm_erase hk).map fun q => g q.2).sum_eq, List.map_cons, List.sum_cons, Nat.add_comm]; rfl

theorem sum_erase_le (g : V → ℕ) (m : FMap K V) (k : K) :
    ((m.erase k).entries.map fun q => g q.2).sum ≤ (m.entries.map fun q => g q.2).sum := by
  have hadd := sum_erase_add g m k
  omega

theorem sum_insert_le (g : V → ℕ) {m : FMap K V} {k : K} {v : V} (h : g v ≤ ((m.get? k).map g).getD 0) :
    ((m.insert k v).entries.map fun q => g q.2).sum ≤ (m.entries.map fun q => g q.2).sum := by
  have hsum : ((m.insert k v).entries.map fun q => g q.2).sum =
      g v + ((m.erase k).entries.map fun q => g q.2).sum := rfl
  have hadd := sum_erase_add g m k
  omega

/-- The rows of other keys stand as they were. -/
theorem erase_modify_entries (m : FMap K V) (k : K) (f : V → V) :
    ((m.modify k f).erase k).entries = (m.erase k).entries := by
  simp only [erase, retain, modify]
  induction m.entries with
  | nil => rfl
  | cons q l ih =>
    rw [List.map_cons, List.filter_cons, List.filter_cons, ih]
    by_cases hq : q.1 = k <;> simp [hq]

theorem sum_modify_add (g : V → ℕ) (m : FMap K V) (k : K) (f : V → V) :
    ((m.modify k f).entries.map fun q => g q.2).sum + ((m.get? k).map g).getD 0 =
      (m.entries.map fun q => g q.2).sum + ((m.get? k).map fun v => g (f v)).getD 0 := by
  have hnew := sum_erase_add g (m.modify k f) k
  have hold := sum_erase_add g m k
  rw [erase_modify_entries, get?_modify, if_pos rfl, Option.map_map] at hnew
  simp only [Function.comp_def] at hnew
  omega

/-- Collecting never adds. -/
theorem sum_ofRows_le (g : V → ℕ) (rows : List (K × V)) :
    ((ofRows rows).entries.map fun q => g q.2).sum ≤ (rows.map fun q => g q.2).sum := by
  induction rows using List.reverseRecOn with
  | nil => exact Nat.le_refl _
  | append_singleton rows r ih =>
    have herase := sum_erase_add g (ofRows rows) r.1
    rw [sum_ofRows_concat, List.map_append, List.sum_append, List.map_singleton, List.sum_singleton]
    omega

/-- **A collision shows in the sum**: where a key comes twice and every row
counts for something, the collected map counts less than the rows. -/
theorem sum_ofRows_lt (g : V → ℕ) {rows : List (K × V)} (hpos : ∀ r ∈ rows, 0 < g r.2)
    (h : ¬ (rows.map Prod.fst).Nodup) :
    ((ofRows rows).entries.map fun q => g q.2).sum < (rows.map fun q => g q.2).sum := by
  induction rows using List.reverseRecOn with
  | nil => exact absurd List.nodup_nil h
  | append_singleton rows r ih =>
    have hpos' : ∀ x ∈ rows, 0 < g x.2 := fun x hx => hpos x (List.mem_append_left _ hx)
    have hle := sum_ofRows_le g rows
    have herase := sum_erase_add g (ofRows rows) r.1
    rw [sum_ofRows_concat, List.map_append, List.sum_append, List.map_singleton, List.sum_singleton]
    cases hk : (ofRows rows).get? r.1 with
    | some v =>
      -- the row found one of its key, which is gone
      have hlost : 0 < g v := hpos' _ (mem_of_mem_ofRows (mem_iff.mpr hk))
      rw [hk, Option.map_some, Option.getD_some] at herase
      omega
    | none =>
      have hnew : r.1 ∉ rows.map Prod.fst := by
        rw [← get?_ofRows_isSome, hk]
        exact Bool.false_ne_true
      have hdup : ¬ (rows.map Prod.fst).Nodup := by
        intro hrows
        apply h
        rw [List.map_append]
        refine List.nodup_append.mpr ⟨hrows, List.nodup_singleton _, fun a ha b hb => ?_⟩
        rw [List.mem_singleton.mp hb]
        exact fun he => hnew (he ▸ ha)
      have hless := ih hpos' hdup
      omega

end FMap

/-! ### Walking a map -/

/-- The order in which hash maps are walked, which nothing fixes. -/
structure MapOrder where
  rows : {K V : Type} → FMap K V → List (K × V)
  perm : ∀ {K V : Type} (m : FMap K V), (rows m).Perm m.entries

/-- Maps walked as their entries stand. -/
def MapOrder.asListed : MapOrder := ⟨fun m => m.entries, fun _ => List.Perm.refl _⟩

end Lib
end Logmon
