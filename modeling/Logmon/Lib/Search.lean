/-
# Finding and sorting by key

Binary search in a list of strictly ascending keys, as a loop over a base and
a size; and a sort by another key, which among equals keeps the order of the
first.

Key definitions: `searchFrom`, `binarySearch`, `StablySorted`.
Key theorems: `Asc.binarySearch_eq_some_iff`,
`Asc.stablySorted_insertionSort`.
-/
import Logmon.Lib.Ascending

namespace Logmon
namespace Lib

variable {α : Type} {key : α → ℕ} {l : List α}

/-! ### Binary search -/

/-- The loop: the base and size of what is left, halved until one is. -/
def searchFrom (key : α → ℕ) (l : List α) (k : ℕ) : ℕ → ℕ → ℕ → ℕ
  | 0, base, _ => base
  | fuel + 1, base, size =>
    if size ≤ 1 then base
    else
      match l[base + size / 2]? with
      | none => base
      | some a => searchFrom key l k fuel (if key a > k then base else base + size / 2) (size - size / 2)

/-- Where the element with key `k` is. -/
def binarySearch (key : α → ℕ) (l : List α) (k : ℕ) : Option ℕ :=
  let i := searchFrom key l k l.length 0 l.length
  match l[i]? with
  | none => none
  | some a => if key a = k then some i else none

theorem Asc.getElem?_lt (h : Asc key l) {i j : ℕ} {a b : α} (hij : i < j) (ha : l[i]? = some a) (hb : l[j]? = some b) :
    key a < key b := by
  obtain ⟨hi, rfl⟩ := List.getElem?_eq_some_iff.mp ha
  obtain ⟨hj, rfl⟩ := List.getElem?_eq_some_iff.mp hb
  exact List.pairwise_iff_getElem.mp h i j hi hj hij

/-- The loop keeps what is looked for within its bounds. -/
theorem searchFrom_eq (h : Asc key l) {k i : ℕ} {x : α} (hx : l[i]? = some x) (hk : key x = k) :
    ∀ {fuel base size : ℕ}, size ≤ fuel + 1 → base ≤ i → i < base + size → base + size ≤ l.length →
      searchFrom key l k fuel base size = i
  | 0, base, size, hfuel, hlo, hhi, _ => by
    unfold searchFrom
    omega
  | fuel + 1, base, size, hfuel, hlo, hhi, hlen => by
    unfold searchFrom
    split_ifs with hsize
    · omega
    · have hmid : base + size / 2 < l.length := by omega
      obtain ⟨a, hget⟩ : ∃ a, l[base + size / 2]? = some a := ⟨_, List.getElem?_eq_getElem hmid⟩
      rw [hget]
      simp only
      by_cases hgt : key a > k
      · rw [if_pos hgt]
        have hlt : i < base + size / 2 := by
          by_contra hge
          rcases Nat.lt_or_eq_of_le (Nat.le_of_not_lt hge) with hlt | heq
          · have := h.getElem?_lt hlt hget hx
            omega
          · rw [heq, hx] at hget
            rw [← Option.some.inj hget] at hgt
            omega
        exact searchFrom_eq h hx hk (by omega) hlo (by omega) (by omega)
      · rw [if_neg hgt]
        have hge : base + size / 2 ≤ i := by
          by_contra hlt
          have := h.getElem?_lt (Nat.lt_of_not_le hlt) hx hget
          omega
        exact searchFrom_eq h hx hk (by omega) hge (by omega) (by omega)

/-- **Binary search finds the element with a key, and nothing else.** -/
theorem Asc.binarySearch_eq_some_iff (h : Asc key l) {k i : ℕ} :
    binarySearch key l k = some i ↔ ∃ x, l[i]? = some x ∧ key x = k := by
  unfold binarySearch
  simp only
  constructor
  · intro hs
    split at hs
    · cases hs
    · rename_i a ha
      split_ifs at hs with hk
      obtain rfl := Option.some.inj hs
      exact ⟨a, ha, hk⟩
  · rintro ⟨x, hx, hk⟩
    have hlt : i < l.length := (List.getElem?_eq_some_iff.mp hx).1
    rw [searchFrom_eq h hx hk (Nat.le_succ _) (Nat.zero_le _) (by omega) (by omega), hx]
    simp only
    rw [if_pos hk]

/-! ### A stable sort -/

variable {β : Type} [LinearOrder β]

/-- Sorted by `f`, equals in the order of `key`. -/
def StablySorted (f : α → β) (key : α → ℕ) (l : List α) : Prop :=
  l.Pairwise fun a b => f a < f b ∨ f a = f b ∧ key a < key b

theorem stablySorted_orderedInsert {f : α → β} {a : α} : ∀ {l : List α}, StablySorted f key l →
    (∀ b ∈ l, key a < key b) → StablySorted f key (l.orderedInsert (fun a b => f a ≤ f b) a)
  | [], _, _ => List.pairwise_singleton _ _
  | b :: l, hl, ha => by
    obtain ⟨hb, hl'⟩ := List.pairwise_cons.mp hl
    rw [List.orderedInsert_cons]
    split_ifs with hle
    · refine List.pairwise_cons.mpr ⟨fun c hc => ?_, hl⟩
      have hac := ha c hc
      have hbc : f b ≤ f c := by
        rcases List.mem_cons.mp hc with rfl | hc
        · exact le_refl _
        · rcases hb c hc with hlt | ⟨heq, -⟩
          · exact le_of_lt hlt
          · exact le_of_eq heq
      rcases lt_or_eq_of_le (le_trans hle hbc) with hlt | heq
      · exact .inl hlt
      · exact .inr ⟨heq, hac⟩
    · refine List.pairwise_cons.mpr ⟨fun c hc => ?_, ?_⟩
      · rcases (List.mem_orderedInsert _).mp hc with rfl | hc
        · exact .inl (lt_of_not_ge hle)
        · exact hb c hc
      · exact stablySorted_orderedInsert hl' fun c hc => ha c (List.mem_cons_of_mem _ hc)

/-- **An ascending list, sorted by another key, keeps its order among equals.** -/
theorem Asc.stablySorted_insertionSort {f : α → β} : ∀ {l : List α}, Asc key l →
    StablySorted f key (l.insertionSort fun a b => f a ≤ f b)
  | [], _ => List.Pairwise.nil
  | a :: l, h => by
    obtain ⟨ha, hl⟩ := asc_cons.mp h
    rw [List.insertionSort_cons]
    refine stablySorted_orderedInsert hl.stablySorted_insertionSort fun b hb => ?_
    exact ha b ((List.mem_insertionSort _).mp hb)

end Lib
end Logmon
