/-
# A record of what held when

A list of values, each with the number it holds from; a value holds until the
next one starts, and the last for good. Values are added at the end, at later
numbers, and the oldest may be dropped: a number then keeps the value that
held at it, or comes to lie before all that is left.

Key definitions: `Governs`, `Precedes`, `lastUpTo`.
Key theorems: `Governs.append`, `Governs.drop`, `governs_last`,
`governs_iff_lastUpTo`, `lastUpTo_drop`.
-/
import Mathlib.Tactic.Linarith

namespace Logmon
namespace Lib

variable {α : Type} {start : α → ℕ} {l : List α} {a b : α} {n : ℕ}

/-- `a` is in the list and holds at `n`. -/
def Governs (start : α → ℕ) (l : List α) (a : α) (n : ℕ) : Prop :=
  ∃ before after, l = before ++ a :: after ∧ start a ≤ n ∧ ∀ b ∈ after.head?, n < start b

/-- The list starts after `n`. -/
def Precedes (start : α → ℕ) (l : List α) (n : ℕ) : Prop := ∃ a ∈ l.head?, n < start a

theorem Governs.append (h : Governs start l a n) (hb : n < start b) : Governs start (l ++ [b]) a n := by
  obtain ⟨before, after, rfl, ha, hafter⟩ := h
  refine ⟨before, after ++ [b], by simp, ha, fun c hc => ?_⟩
  cases after with
  | nil =>
    obtain rfl : b = c := by simpa using hc
    exact hb
  | cons d after => exact hafter c (by simpa using hc)

theorem Precedes.append (h : Precedes start l n) (b : α) : Precedes start (l ++ [b]) n := by
  obtain ⟨a, ha, hn⟩ := h
  refine ⟨a, ?_, hn⟩
  cases l with
  | nil => simp at ha
  | cons c l => simpa using ha

theorem governs_last (h : l.getLast? = some a) (ha : start a ≤ n) : Governs start l a n := by
  obtain ⟨before, rfl⟩ := List.getLast?_eq_some_iff.mp h
  exact ⟨before, [], rfl, ha, by simp⟩

/-- Where starts ascend, what is left of a list that started after `n` does. -/
theorem Precedes.drop (hasc : l.Pairwise fun a b => start a ≤ start b) (h : Precedes start l n) {k : ℕ}
    (hk : k < l.length) : Precedes start (l.drop k) n := by
  obtain ⟨a, ha, hn⟩ := h
  cases l with
  | nil => simp at ha
  | cons c l =>
    obtain rfl : c = a := by simpa using ha
    obtain ⟨b, hb⟩ : ∃ b, ((c :: l).drop k).head? = some b := by
      rw [List.head?_drop]
      exact ⟨_, List.getElem?_eq_getElem hk⟩
    refine ⟨b, hb, ?_⟩
    have hmem : b ∈ c :: l := List.mem_of_mem_drop (List.mem_of_mem_head? hb)
    rcases List.mem_cons.mp hmem with rfl | hmem
    · exact hn
    · have := (List.pairwise_cons.mp hasc).1 b hmem
      omega

/-- Where starts ascend, dropping the oldest keeps what holds at `n`, or
leaves only what starts after it. -/
theorem Governs.drop (hasc : l.Pairwise fun a b => start a ≤ start b) (h : Governs start l a n) {k : ℕ}
    (hk : k < l.length) : Precedes start (l.drop k) n ∨ Governs start (l.drop k) a n := by
  obtain ⟨before, after, rfl, ha, hafter⟩ := h
  by_cases hb : k ≤ before.length
  · right
    rw [List.drop_append_of_le_length hb]
    exact ⟨before.drop k, after, rfl, ha, hafter⟩
  · left
    -- what is left is a part of what came after `a`
    obtain ⟨j, rfl⟩ : ∃ j, k = before.length + (j + 1) := ⟨k - before.length - 1, by omega⟩
    rw [List.drop_append, List.drop_eq_nil_of_le (by omega), List.nil_append,
      show before.length + (j + 1) - before.length = j + 1 by omega, List.drop_succ_cons]
    have hj : j < after.length := by simp at hk; omega
    refine Precedes.drop (List.Pairwise.sublist ?_ hasc) ?_ hj
    · exact ((List.sublist_cons_self a after).trans (List.sublist_append_right before _))
    · cases after with
      | nil => simp at hj
      | cons c after => exact ⟨c, rfl, hafter c rfl⟩

/-! ### The last value up to a number -/

/-- The last value that starts at or before `n`. -/
def lastUpTo (start : α → ℕ) (l : List α) (n : ℕ) : Option α := (l.filter fun a => start a ≤ n).getLast?

/-- Where starts ascend, the last value up to `n` is the one that holds at it. -/
theorem governs_iff_lastUpTo (hasc : l.Pairwise fun a b => start a ≤ start b) :
    Governs start l a n ↔ lastUpTo start l n = some a := by
  unfold lastUpTo
  constructor
  · rintro ⟨before, after, rfl, ha, hafter⟩
    have hlate : after.filter (fun b => start b ≤ n) = [] := by
      rw [List.filter_eq_nil_iff]
      intro b hb
      cases after with
      | nil => simp at hb
      | cons c after =>
        have hc : n < start c := hafter c rfl
        have hcb : start c ≤ start b := by
          rcases List.mem_cons.mp hb with rfl | hb
          · exact Nat.le_refl _
          · exact (List.pairwise_cons.mp (List.pairwise_cons.mp (List.pairwise_append.mp hasc).2.1).2).1 b hb
        simp only [decide_eq_true_eq]
        omega
    rw [List.filter_append, List.filter_cons_of_pos (by simpa using ha), hlate, List.getLast?_append]
    rfl
  · intro h
    induction l with
    | nil => simp at h
    | cons c l ih =>
      obtain ⟨hc, hl⟩ := List.pairwise_cons.mp hasc
      by_cases hfilter : l.filter (fun b => start b ≤ n) = []
      · by_cases hcn : start c ≤ n
        · rw [List.filter_cons_of_pos (by simpa using hcn), hfilter] at h
          obtain rfl : c = a := by simpa using h
          refine ⟨[], l, rfl, hcn, fun b hb => ?_⟩
          have := List.filter_eq_nil_iff.mp hfilter b (List.mem_of_mem_head? hb)
          simpa using this
        · rw [List.filter_cons_of_neg (by simpa using hcn), hfilter] at h
          simp at h
      · have hrest : (l.filter fun b => start b ≤ n).getLast? = some a := by
          rw [List.filter_cons] at h
          split at h
          · rwa [List.getLast?_cons_of_ne_nil hfilter] at h
          · exact h
        obtain ⟨before, after, hsplit, ha, hafter⟩ := ih hl hrest
        exact ⟨c :: before, after, by rw [hsplit, List.cons_append], ha, hafter⟩

/-- Dropping the oldest values changes nothing at the numbers from the start of
what is left. -/
theorem lastUpTo_drop {k : ℕ} (h : ∃ b ∈ (l.drop k).head?, start b ≤ n) :
    lastUpTo start (l.drop k) n = lastUpTo start l n := by
  obtain ⟨b, hb, hn⟩ := h
  have hne : ((l.drop k).filter fun a => start a ≤ n).getLast?.isSome := by
    rw [List.getLast?_isSome]
    exact List.ne_nil_of_mem (List.mem_filter.mpr ⟨List.mem_of_mem_head? hb, by simpa using hn⟩)
  obtain ⟨c, hc⟩ := Option.isSome_iff_exists.mp hne
  have hsplit : lastUpTo start l n = lastUpTo start (l.take k ++ l.drop k) n := by rw [List.take_append_drop]
  rw [hsplit]
  unfold lastUpTo
  rw [List.filter_append, List.getLast?_append, hc, Option.some_or]

theorem lastUpTo_append_of_le (h : start b ≤ n) : lastUpTo start (l ++ [b]) n = some b := by
  unfold lastUpTo
  rw [List.filter_append, List.filter_cons_of_pos (by simpa using h), List.filter_nil, List.getLast?_append]
  rfl

theorem lastUpTo_append_of_lt (h : n < start b) : lastUpTo start (l ++ [b]) n = lastUpTo start l n := by
  unfold lastUpTo
  rw [List.filter_append, List.filter_cons_of_neg (by simpa using h), List.filter_nil, List.append_nil]

end Lib
end Logmon
