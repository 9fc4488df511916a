/-
# The measure of a union of intervals

Half-open intervals of integers, as pairs. The measure of their union is the
number of integers in it (`covered`); a sweep over the sorted intervals, which
joins an interval to the one before it when it starts inside or right behind
it, computes that number (`unionLen_eq_card`).

The sweep takes no difference but that of two ends of the joined intervals,
so none is greater than the span the intervals lie in (`unionDiffs_bounds`),
and one is as long as the longest stretch of integers covered
(`exists_unionDiffs_iff`).

Key definitions: `points`, `covered`, `sortIntervals`, `sweep`, `unionLen`,
`unionDiffs`.
Key theorems: `mem_covered`, `card_covered_cons_disjoint`, `unionLen_eq_card`,
`sum_unionDiffs`, `unionDiffs_bounds`, `exists_unionDiffs_iff`.
-/
import Mathlib.Data.Int.ConditionallyCompleteOrder
import Mathlib.Data.Int.Interval
import Mathlib.Data.List.Sort
import Mathlib.Tactic.Linarith

namespace Logmon
namespace Lib

/-- The integers of `[i.1, i.2)`. -/
noncomputable def points (i : ℤ × ℤ) : Finset ℤ := Finset.Ico i.1 i.2

@[simp] theorem mem_points {i : ℤ × ℤ} {x : ℤ} : x ∈ points i ↔ i.1 ≤ x ∧ x < i.2 := Finset.mem_Ico

theorem card_points {i : ℤ × ℤ} (h : i.1 ≤ i.2) : ((points i).card : ℤ) = i.2 - i.1 := by
  rw [points, Int.card_Ico]
  omega

/-- The integers of any of the intervals. -/
noncomputable def covered : List (ℤ × ℤ) → Finset ℤ
  | [] => ∅
  | i :: l => points i ∪ covered l

theorem mem_covered {x : ℤ} : ∀ {l : List (ℤ × ℤ)}, x ∈ covered l ↔ ∃ i ∈ l, x ∈ points i
  | [] => by simp [covered]
  | i :: l => by
    rw [covered, Finset.mem_union, mem_covered, List.exists_mem_cons_iff]

/-- By start, and by end where the starts are the same. -/
def intervalLe (a b : ℤ × ℤ) : Prop := a.1 < b.1 ∨ a.1 = b.1 ∧ a.2 ≤ b.2

instance : DecidableRel intervalLe := fun _ _ => inferInstanceAs (Decidable (_ ∨ _))

instance : Std.Total intervalLe := ⟨fun a b => by unfold intervalLe; omega⟩

instance : IsTrans (ℤ × ℤ) intervalLe := ⟨fun a b c => by unfold intervalLe; omega⟩

def sortIntervals (l : List (ℤ × ℤ)) : List (ℤ × ℤ) := l.insertionSort intervalLe

theorem sortIntervals_perm (l : List (ℤ × ℤ)) : (sortIntervals l).Perm l := List.perm_insertionSort _ l

theorem sortIntervals_sorted (l : List (ℤ × ℤ)) : (sortIntervals l).Pairwise intervalLe :=
  List.pairwise_insertionSort _ l

/-- The sweep: `cs..ce` is the interval being joined, `total` what is behind
it. -/
def sweep : ℤ → ℤ → ℤ → List (ℤ × ℤ) → ℤ
  | cs, ce, total, [] => total + (ce - cs)
  | cs, ce, total, (s, e) :: l => if s ≤ ce then sweep cs (max ce e) total l else sweep s e (total + (ce - cs)) l

/-- The measure of the union, by sorting and sweeping. -/
def unionLen (l : List (ℤ × ℤ)) : ℤ :=
  match sortIntervals l with
  | [] => 0
  | (cs, ce) :: rest => sweep cs ce 0 rest

/-- An interval that starts inside another, or right behind it, is joined to
it. -/
theorem covered_cons_join {cs ce s e : ℤ} (hcs : cs ≤ s) (h : s ≤ ce) (l : List (ℤ × ℤ)) :
    covered ((cs, ce) :: (s, e) :: l) = covered ((cs, max ce e) :: l) := by
  have hjoin : points (cs, ce) ∪ points (s, e) = points (cs, max ce e) := by
    ext x
    simp only [Finset.mem_union, mem_points]
    omega
  rw [covered, covered, covered, ← Finset.union_assoc, hjoin]

/-- An interval that ends before the others start adds its own length. -/
theorem card_covered_cons_disjoint {cs ce : ℤ} (hce : cs ≤ ce) {l : List (ℤ × ℤ)} (h : ∀ i ∈ l, ce < i.1) :
    ((covered ((cs, ce) :: l)).card : ℤ) = ce - cs + (covered l).card := by
  have hdisjoint : Disjoint (points (cs, ce)) (covered l) := by
    rw [Finset.disjoint_left]
    intro x hx hl
    obtain ⟨i, hi, hx'⟩ := mem_covered.mp hl
    have := h i hi
    rw [mem_points] at hx hx'
    simp only at hx
    omega
  rw [covered, Finset.card_union_of_disjoint hdisjoint, Nat.cast_add, card_points hce]

theorem sweep_eq_card : ∀ (l : List (ℤ × ℤ)) (cs ce total : ℤ), cs ≤ ce → (∀ i ∈ l, i.1 ≤ i.2) →
    ((cs, ce) :: l).Pairwise (fun a b => a.1 ≤ b.1) → sweep cs ce total l = total + (covered ((cs, ce) :: l)).card
  | [], cs, ce, total, hce, _, _ => by
    rw [sweep, card_covered_cons_disjoint hce fun i hi => absurd hi List.not_mem_nil]
    simp [covered]
  | (s, e) :: l, cs, ce, total, hce, hwf, hsorted => by
    obtain ⟨hfirst, hrest⟩ := List.pairwise_cons.mp hsorted
    have hse : s ≤ e := hwf (s, e) List.mem_cons_self
    have hcs : cs ≤ s := hfirst (s, e) List.mem_cons_self
    have hwf' : ∀ i ∈ l, i.1 ≤ i.2 := fun i hi => hwf i (List.mem_cons_of_mem _ hi)
    rw [sweep]
    by_cases h : s ≤ ce
    · have hsorted' : ((cs, max ce e) :: l).Pairwise fun a b => a.1 ≤ b.1 :=
        List.pairwise_cons.mpr ⟨fun i hi => hfirst i (List.mem_cons_of_mem _ hi), (List.pairwise_cons.mp hrest).2⟩
      rw [if_pos h, sweep_eq_card l cs (max ce e) total (by omega) hwf' hsorted', covered_cons_join hcs h]
    · have hlater : ∀ i ∈ (s, e) :: l, ce < i.1 := by
        intro i hi
        rcases List.mem_cons.mp hi with rfl | hi
        · simp only
          omega
        · have := (List.pairwise_cons.mp hrest).1 i hi
          simp only at this
          omega
      rw [if_neg h, sweep_eq_card l s e (total + (ce - cs)) hse hwf' hrest, card_covered_cons_disjoint hce hlater]
      omega

theorem covered_perm {l m : List (ℤ × ℤ)} (h : l.Perm m) : covered l = covered m := by
  ext x
  rw [mem_covered, mem_covered]
  exact exists_congr fun i => and_congr_left fun _ => h.mem_iff

/-- **The sweep measures the union**, whatever order the intervals come in. -/
theorem unionLen_eq_card {l : List (ℤ × ℤ)} (h : ∀ i ∈ l, i.1 ≤ i.2) : unionLen l = (covered l).card := by
  have hperm := sortIntervals_perm l
  have hsorted : (sortIntervals l).Pairwise fun a b => a.1 ≤ b.1 :=
    (sortIntervals_sorted l).imp fun {a b} hab => by unfold intervalLe at hab; omega
  rw [← covered_perm hperm]
  unfold unionLen
  cases hs : sortIntervals l with
  | nil => rfl
  | cons i rest =>
    rw [hs] at hperm hsorted
    have hwf : ∀ j ∈ i :: rest, j.1 ≤ j.2 := fun j hj => h j (hperm.mem_iff.mp hj)
    show sweep i.1 i.2 0 rest = _
    rw [sweep_eq_card rest i.1 i.2 0 (hwf i List.mem_cons_self) (fun j hj => hwf j (List.mem_cons_of_mem _ hj)) hsorted,
      zero_add]

/-! ### The differences the sweep takes -/

/-- The differences a sweep takes, one for each joined interval. -/
def sweepDiffs : ℤ → ℤ → List (ℤ × ℤ) → List ℤ
  | cs, ce, [] => [ce - cs]
  | cs, ce, (s, e) :: l => if s ≤ ce then sweepDiffs cs (max ce e) l else (ce - cs) :: sweepDiffs s e l

def unionDiffs (l : List (ℤ × ℤ)) : List ℤ :=
  match sortIntervals l with
  | [] => []
  | (cs, ce) :: rest => sweepDiffs cs ce rest

theorem sweep_eq_sum : ∀ (l : List (ℤ × ℤ)) (cs ce total : ℤ), sweep cs ce total l = total + (sweepDiffs cs ce l).sum
  | [], cs, ce, total => by simp [sweep, sweepDiffs]
  | (s, e) :: l, cs, ce, total => by
    rw [sweep, sweepDiffs]
    by_cases h : s ≤ ce
    · rw [if_pos h, if_pos h, sweep_eq_sum l]
    · rw [if_neg h, if_neg h, sweep_eq_sum l, List.sum_cons, add_assoc]

/-- The measure is the sum of the differences. -/
theorem sum_unionDiffs (l : List (ℤ × ℤ)) : (unionDiffs l).sum = unionLen l := by
  unfold unionDiffs unionLen
  cases sortIntervals l with
  | nil => rfl
  | cons i rest => exact ((sweep_eq_sum rest i.1 i.2 0).trans (zero_add _)).symm

/-- An interval of `[lo, hi]`, its ends in order. -/
def Within (lo hi : ℤ) (i : ℤ × ℤ) : Prop := lo ≤ i.1 ∧ i.1 ≤ i.2 ∧ i.2 ≤ hi

variable {lo hi : ℤ}

theorem sweepDiffs_bounds : ∀ {l : List (ℤ × ℤ)} {cs ce : ℤ}, Within lo hi (cs, ce) → (∀ i ∈ l, Within lo hi i) →
    ∀ d ∈ sweepDiffs cs ce l, 0 ≤ d ∧ d ≤ hi - lo
  | [], cs, ce, ⟨hlo, hle, hhi⟩, _ => by
    intro d hd
    obtain rfl := List.mem_singleton.mp hd
    simp only at hlo hle hhi
    omega
  | (s, e) :: l, cs, ce, ⟨hlo, hle, hhi⟩, hl => by
    obtain ⟨hlo', hle', hhi'⟩ := hl (s, e) List.mem_cons_self
    have hrest : ∀ i ∈ l, Within lo hi i := fun i hi => hl i (List.mem_cons_of_mem _ hi)
    simp only at hlo hle hhi hlo' hle' hhi'
    intro d hd
    rw [sweepDiffs] at hd
    split at hd
    · exact sweepDiffs_bounds ⟨hlo, hle.trans (le_max_left _ _), max_le hhi hhi'⟩ hrest d hd
    · rcases List.mem_cons.mp hd with rfl | hd
      · omega
      · exact sweepDiffs_bounds ⟨hlo', hle', hhi'⟩ hrest d hd

/-- **No difference of the sweep exceeds the span the intervals lie in.** -/
theorem unionDiffs_bounds {l : List (ℤ × ℤ)} (h : ∀ i ∈ l, Within lo hi i) :
    ∀ d ∈ unionDiffs l, 0 ≤ d ∧ d ≤ hi - lo := by
  intro d hd
  have hsorted : ∀ i ∈ sortIntervals l, Within lo hi i := fun i hi => h i ((sortIntervals_perm l).mem_iff.mp hi)
  unfold unionDiffs at hd
  cases hs : sortIntervals l with
  | nil =>
    rw [hs] at hd
    exact absurd hd List.not_mem_nil
  | cons i rest =>
    rw [hs] at hd hsorted
    exact sweepDiffs_bounds (hsorted i List.mem_cons_self) (fun j hj => hsorted j (List.mem_cons_of_mem _ hj)) d hd

/-! ### The stretches of a union -/

theorem exists_sweepDiffs_iff {n : ℤ} (hn : 0 < n) : ∀ {l : List (ℤ × ℤ)} {cs ce : ℤ}, cs ≤ ce →
    (∀ i ∈ l, i.1 ≤ i.2) → ((cs, ce) :: l).Pairwise (fun a b => a.1 ≤ b.1) →
    ((∃ d ∈ sweepDiffs cs ce l, n ≤ d) ↔ ∃ x, points (x, x + n) ⊆ covered ((cs, ce) :: l))
  | [], cs, ce, _, _, _ => by
    simp only [sweepDiffs, List.mem_singleton, exists_eq_left, covered, Finset.union_empty]
    constructor
    · exact fun h => ⟨cs, fun y hy => by simp only [mem_points] at hy ⊢; omega⟩
    · rintro ⟨x, hx⟩
      have hfirst := hx (mem_points.mpr (show x ≤ x ∧ x < x + n by omega))
      have hlast := hx (mem_points.mpr (show x ≤ x + n - 1 ∧ x + n - 1 < x + n by omega))
      simp only [mem_points] at hfirst hlast
      omega
  | (s, e) :: l, cs, ce, hce, hwf, hsorted => by
    obtain ⟨hfirst, hrest⟩ := List.pairwise_cons.mp hsorted
    have hse : s ≤ e := hwf (s, e) List.mem_cons_self
    have hcs : cs ≤ s := hfirst (s, e) List.mem_cons_self
    have hwf' : ∀ i ∈ l, i.1 ≤ i.2 := fun i hi => hwf i (List.mem_cons_of_mem _ hi)
    rw [sweepDiffs]
    by_cases h : s ≤ ce
    · have hsorted' : ((cs, max ce e) :: l).Pairwise fun a b => a.1 ≤ b.1 :=
        List.pairwise_cons.mpr ⟨fun i hi => hfirst i (List.mem_cons_of_mem _ hi), (List.pairwise_cons.mp hrest).2⟩
      rw [if_pos h, exists_sweepDiffs_iff hn (by omega) hwf' hsorted', covered_cons_join hcs h]
    · have hlater : ∀ y ∈ covered ((s, e) :: l), ce < y := by
        intro y hy
        obtain ⟨i, hi, hyi⟩ := mem_covered.mp hy
        rw [mem_points] at hyi
        rcases List.mem_cons.mp hi with rfl | hi
        · simp only at hyi
          omega
        · have := (List.pairwise_cons.mp hrest).1 i hi
          simp only at this
          omega
      have hsplit : ∀ y, y ∈ covered ((cs, ce) :: (s, e) :: l) ↔ (cs ≤ y ∧ y < ce) ∨ y ∈ covered ((s, e) :: l) :=
        fun y => by rw [covered, Finset.mem_union, mem_points]
      rw [if_neg h, List.exists_mem_cons_iff, exists_sweepDiffs_iff hn hse hwf' hrest]
      constructor
      · rintro (hd | ⟨x, hx⟩)
        · exact ⟨cs, fun y hy => (hsplit y).mpr (.inl (by rw [mem_points] at hy; simp only at hy; omega))⟩
        · exact ⟨x, fun y hy => (hsplit y).mpr (.inr (hx hy))⟩
      · -- `ce` itself is in neither part, so a stretch lies on one side of it
        rintro ⟨x, hx⟩
        have hat : ∀ y, x ≤ y → y < x + n → (cs ≤ y ∧ y < ce) ∨ y ∈ covered ((s, e) :: l) :=
          fun y h₁ h₂ => (hsplit y).mp (hx (mem_points.mpr ⟨h₁, h₂⟩))
        by_cases hbefore : x + n ≤ ce
        · left
          rcases hat x le_rfl (by omega) with hin | hin
          · omega
          · have := hlater x hin
            omega
        · right
          have hxce : ce < x := by
            by_contra hle
            rcases hat ce (by omega) (by omega) with hin | hin
            · omega
            · exact lt_irrefl _ (hlater ce hin)
          refine ⟨x, fun y hy => ?_⟩
          rw [mem_points] at hy
          rcases hat y hy.1 hy.2 with hin | hin
          · simp only at hy
            omega
          · exact hin

/-- **The sweep takes a difference of `n` or more exactly when `n` integers in
a row are covered.** -/
theorem exists_unionDiffs_iff {n : ℤ} (hn : 0 < n) {l : List (ℤ × ℤ)} (h : ∀ i ∈ l, i.1 ≤ i.2) :
    (∃ d ∈ unionDiffs l, n ≤ d) ↔ ∃ x, points (x, x + n) ⊆ covered l := by
  have hperm := sortIntervals_perm l
  have hsorted : (sortIntervals l).Pairwise fun a b => a.1 ≤ b.1 :=
    (sortIntervals_sorted l).imp fun {a b} hab => by unfold intervalLe at hab; omega
  rw [← covered_perm hperm]
  unfold unionDiffs
  cases hs : sortIntervals l with
  | nil =>
    simp only [List.not_mem_nil, false_and, exists_const, covered, false_iff, not_exists]
    exact fun x hx => Finset.notMem_empty x (hx (mem_points.mpr (show x ≤ x ∧ x < x + n by omega)))
  | cons i rest =>
    rw [hs] at hperm hsorted
    have hwf : ∀ j ∈ i :: rest, j.1 ≤ j.2 := fun j hj => h j (hperm.mem_iff.mp hj)
    exact exists_sweepDiffs_iff hn (hwf i List.mem_cons_self) (fun j hj => hwf j (List.mem_cons_of_mem _ hj)) hsorted

end Lib
end Logmon
