/-
# Rankings cut short

A list ranked by a time and cut after its first `n` elements. The cut keeps the
top (`TopOf`) when no element past it has a greater time than one before it;
in a list in strict key order, the elements before the cut are the ones with
fewer than `n` keys below theirs.

Key definitions: `TopOf`.
Key theorems: `topOf_take_iff`, `mem_take_iff_countP`.
-/
import Mathlib.Data.List.Sort
import Mathlib.Order.Defs.LinearOrder
import Mathlib.Tactic.Linarith

namespace Logmon
namespace Lib

variable {α : Type*}

/-! ### The top of a list -/

section
variable {F : Type*} [LinearOrder F] (time : α → F)

/-- `rows` are elements of `all` that no other element of it exceeds. -/
def TopOf (all rows : List α) : Prop :=
  ∃ omitted : List α, all.Perm (rows ++ omitted) ∧ ∀ o ∈ omitted, ∀ r ∈ rows, time o ≤ time r

variable {time}

theorem TopOf.of_perm {all all' rows : List α} (h : TopOf time all rows) (hp : all'.Perm all) :
    TopOf time all' rows := by
  obtain ⟨omitted, hall, hle⟩ := h
  exact ⟨omitted, hp.trans hall, hle⟩

/-- The first elements of a list are its top if what is cut exceeds none. -/
theorem topOf_take_iff {l : List α} {n : ℕ} :
    TopOf time l (l.take n) ↔ ∀ o ∈ l.drop n, ∀ r ∈ l.take n, time o ≤ time r := by
  constructor
  · rintro ⟨omitted, hall, hle⟩ o ho
    have hperm : (l.take n ++ l.drop n).Perm (l.take n ++ omitted) := by rwa [List.take_append_drop]
    exact hle o (((List.perm_append_left_iff _).mp hperm).mem_iff.mp ho)
  · exact fun h => ⟨l.drop n, by rw [List.take_append_drop], h⟩

end

theorem rel_of_take_drop {R : α → α → Prop} {l : List α} (h : l.Pairwise R) {n : ℕ} {a b : α} (ha : a ∈ l.take n)
    (hb : b ∈ l.drop n) : R a b := by
  rw [← List.take_append_drop n l] at h
  exact (List.pairwise_append.mp h).2.2 a ha b hb

/-- In strict key order, what stands before the `n`-th place has fewer than `n`
keys below its own. -/
theorem mem_take_iff_countP {κ : Type*} [LinearOrder κ] (key : α → κ) :
    ∀ {l : List α}, l.Pairwise (fun a b => key a < key b) → ∀ {a : α}, a ∈ l → ∀ (n : ℕ),
      a ∈ l.take n ↔ l.countP (fun b => key b < key a) < n
  | [], _, _, ha, _ => absurd ha List.not_mem_nil
  | x :: l, h, a, ha, n => by
    obtain ⟨hx, hl⟩ := List.pairwise_cons.mp h
    cases n with
    | zero => simp
    | succ n =>
      rw [List.take_succ_cons, List.mem_cons, List.countP_cons]
      rcases List.mem_cons.mp ha with rfl | ha
      · have hnone : l.countP (fun b => decide (key b < key a)) = 0 := by
          refine List.countP_eq_zero.mpr fun b hb hlt => ?_
          exact lt_asymm (hx b hb) (of_decide_eq_true hlt)
        simp [hnone]
      · have hne : a ≠ x := fun he => lt_irrefl _ (he ▸ hx a ha)
        rw [or_iff_right hne, mem_take_iff_countP key hl ha n, decide_eq_true (hx a ha)]
        simp

end Lib
end Logmon
