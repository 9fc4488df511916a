/-
# Finite maps with natural-number keys, in key order

The model of an ordered map (and of a hash map whose iteration order nobody
observes): the bindings in strictly ascending key order, which the structure
carries as a field. Two maps with the same lookups are equal (`OrdMap.ext_get?`).

Key definitions: `OrdMap`, `OrdMap.get?`, `OrdMap.insert`, `OrdMap.erase`,
`OrdMap.minKey?`, `OrdMap.above`.
Key theorems: `OrdMap.get?_insert`, `OrdMap.get?_erase`, `OrdMap.mem_iff`,
`OrdMap.ext_get?`.
-/
import Logmon.Lib.Ascending

namespace Logmon
namespace Lib

/-- The bindings of a map, each key once, in ascending key order. -/
structure OrdMap (V : Type*) where
  entries : List (ℕ × V)
  asc : Asc Prod.fst entries

namespace OrdMap

variable {V : Type*}

instance [DecidableEq V] : DecidableEq (OrdMap V) := fun a b =>
  if h : a.entries = b.entries then
    isTrue (by cases a; cases b; simp only at h; subst h; rfl)
  else isFalse fun he => h (congrArg entries he)

instance : EmptyCollection (OrdMap V) := ⟨⟨[], Asc.nil⟩⟩

/-- The value bound to `k`. -/
def get? (m : OrdMap V) (k : ℕ) : Option V := (m.entries.find? fun p => p.1 = k).map Prod.snd

/-- The bindings with `k` bound to `v`. -/
def insertList (k : ℕ) (v : V) : List (ℕ × V) → List (ℕ × V)
  | [] => [(k, v)]
  | p :: l =>
    if k < p.1 then (k, v) :: p :: l
    else if k = p.1 then (k, v) :: l
    else p :: insertList k v l

theorem mem_insertList {k : ℕ} {v : V} : ∀ {l : List (ℕ × V)}, Asc Prod.fst l → ∀ {q : ℕ × V},
    q ∈ insertList k v l ↔ q = (k, v) ∨ (q ∈ l ∧ q.1 ≠ k)
  | [], _, q => by simp [insertList]
  | p :: l, h, q => by
    obtain ⟨h1, h2⟩ := asc_cons.mp h
    unfold insertList
    split_ifs with hlt heq
    · constructor
      · intro hq
        rcases List.mem_cons.mp hq with rfl | hq
        · exact Or.inl rfl
        · refine Or.inr ⟨hq, ?_⟩
          rcases List.mem_cons.mp hq with rfl | hq
          · omega
          · have := h1 q hq; omega
      · rintro (rfl | ⟨hq, -⟩)
        · exact List.mem_cons_self
        · exact List.mem_cons_of_mem _ hq
    · constructor
      · intro hq
        rcases List.mem_cons.mp hq with rfl | hq
        · exact Or.inl rfl
        · have := h1 q hq
          exact Or.inr ⟨List.mem_cons_of_mem _ hq, by omega⟩
      · rintro (rfl | ⟨hq, hne⟩)
        · exact List.mem_cons_self
        · rcases List.mem_cons.mp hq with rfl | hq
          · exact absurd heq.symm hne
          · exact List.mem_cons_of_mem _ hq
    · rw [List.mem_cons, mem_insertList h2, List.mem_cons]
      constructor
      · rintro (rfl | rfl | ⟨hq, hne⟩)
        · exact Or.inr ⟨Or.inl rfl, fun he => heq he.symm⟩
        · exact Or.inl rfl
        · exact Or.inr ⟨Or.inr hq, hne⟩
      · rintro (rfl | ⟨rfl | hq, hne⟩)
        · exact Or.inr (Or.inl rfl)
        · exact Or.inl rfl
        · exact Or.inr (Or.inr ⟨hq, hne⟩)

theorem asc_insertList {k : ℕ} {v : V} : ∀ {l : List (ℕ × V)}, Asc Prod.fst l →
    Asc Prod.fst (insertList k v l)
  | [], _ => by simp [insertList, Asc]
  | p :: l, h => by
    obtain ⟨h1, h2⟩ := asc_cons.mp h
    unfold insertList
    split_ifs with hlt heq
    · refine asc_cons.mpr ⟨fun b hb => ?_, h⟩
      rcases List.mem_cons.mp hb with rfl | hb
      · exact hlt
      · exact hlt.trans (h1 b hb)
    · exact asc_cons.mpr ⟨fun b hb => heq ▸ h1 b hb, h2⟩
    · refine asc_cons.mpr ⟨fun b hb => ?_, asc_insertList h2⟩
      rcases (mem_insertList h2).mp hb with rfl | ⟨hb, -⟩
      · simp only; omega
      · exact h1 b hb

/-- Bind `k` to `v`. -/
def insert (m : OrdMap V) (k : ℕ) (v : V) : OrdMap V := ⟨insertList k v m.entries, asc_insertList m.asc⟩

/-- Unbind `k`. -/
def erase (m : OrdMap V) (k : ℕ) : OrdMap V :=
  ⟨m.entries.filter fun p => p.1 ≠ k, m.asc.filter _⟩

/-- The lowest key. -/
def minKey? (m : OrdMap V) : Option ℕ := m.entries.head?.map Prod.fst

/-- The bindings with a key above `k`, in key order. -/
def above (m : OrdMap V) (k : ℕ) : List (ℕ × V) := m.entries.filter fun p => k < p.1

/-- A lookup finds exactly the bindings. -/
theorem mem_iff {m : OrdMap V} {k : ℕ} {v : V} : (k, v) ∈ m.entries ↔ m.get? k = some v := by
  unfold get?
  constructor
  · intro h
    cases hf : m.entries.find? fun p => p.1 = k with
    | none => exact absurd (decide_eq_true rfl) (List.find?_eq_none.mp hf _ h)
    | some q =>
      have hq := List.mem_of_find?_eq_some hf
      have hk : q.1 = k := by simpa using List.find?_some hf
      rw [m.asc.eq_of_key hq h hk]
      rfl
  · intro h
    obtain ⟨q, hf, rfl⟩ := Option.map_eq_some_iff.mp h
    have hk : q.1 = k := by simpa using List.find?_some hf
    exact hk ▸ List.mem_of_find?_eq_some hf

theorem ext_entries {m n : OrdMap V} (h : m.entries = n.entries) : m = n := by
  cases m; cases n; simp only at h; subst h; rfl

/-- **Maps with the same lookups are equal.** -/
theorem ext_get? {m n : OrdMap V} (h : ∀ k, m.get? k = n.get? k) : m = n := by
  refine ext_entries (Asc.ext Prod.fst m.asc n.asc fun p => ?_)
  obtain ⟨k, v⟩ := p
  rw [mem_iff, mem_iff, h k]

@[simp] theorem get?_empty (k : ℕ) : (∅ : OrdMap V).get? k = none := rfl

theorem get?_insert (m : OrdMap V) (k k' : ℕ) (v : V) :
    (m.insert k v).get? k' = if k' = k then some v else m.get? k' := by
  ext w
  rw [← mem_iff]
  simp only [insert]
  rw [mem_insertList m.asc]
  split_ifs with h
  · subst h
    simp [eq_comm]
  · rw [mem_iff]
    simp [h]

theorem get?_erase (m : OrdMap V) (k k' : ℕ) :
    (m.erase k).get? k' = if k' = k then none else m.get? k' := by
  ext w
  rw [← mem_iff]
  simp only [erase, List.mem_filter, mem_iff, ne_eq, decide_eq_true_eq]
  split_ifs with h
  · simp [h]
  · simp [h]

/-- Below the lowest key, and in an empty map, nothing is bound. -/
theorem minKey?_le {m : OrdMap V} {k k₀ : ℕ} {v : V} (h : m.get? k = some v) (h₀ : m.minKey? = some k₀) :
    k₀ ≤ k := by
  have hm := mem_iff.mpr h
  have hasc := m.asc
  unfold minKey? at h₀
  cases he : m.entries with
  | nil => rw [he] at hm; exact absurd hm List.not_mem_nil
  | cons p l =>
    rw [he] at hm hasc h₀
    simp only [List.head?_cons, Option.map_some, Option.some.injEq] at h₀
    rcases List.mem_cons.mp hm with rfl | hm
    · exact h₀.symm.le
    · have := (asc_cons.mp hasc).1 _ hm
      simp only at this
      omega

theorem get?_eq_none_of_minKey? {m : OrdMap V} (h : m.minKey? = none) (k : ℕ) : m.get? k = none := by
  unfold minKey? at h
  have : m.entries = [] := by simpa using h
  simp [get?, this]

theorem mem_above {m : OrdMap V} {k n : ℕ} {v : V} : (n, v) ∈ m.above k ↔ m.get? n = some v ∧ k < n := by
  simp [above, mem_iff]

theorem asc_above (m : OrdMap V) (k : ℕ) : Asc Prod.fst (m.above k) := m.asc.filter _

end OrdMap
end Lib
end Logmon
