/-
# The measure of a union, in 64 bits

`union_len` of `collector/project.rs` with the arithmetic it has: the ends are
`i64`, the total is wider, and the difference of two ends is taken before it
is widened, without overflow checks. It is the number of integers covered
exactly when no `2^63` of them lie in a row (`union_len_exact_iff`); on
intervals clipped to another it never exceeds that one's length, whatever they
are, so a span's self time is not negative.

Key definitions: `unionLenI64`.
Key theorems: `unionLenI64_eq_sum`, `unionLenI64_le`, `unionLenI64_eq_iff`,
`unionLenI64_clipped`, `union_len_exact_iff`.
-/
import Logmon.Collector.Exact
import Logmon.Collector.SelfTime

namespace Logmon

open Lib

/-! ### The sweep -/

/-- The loop of `union_len`. -/
def sweepI64 : ℤ → ℤ → ℤ → List (ℤ × ℤ) → ℤ
  | cs, ce, total, [] => total + i64Sub ce cs
  | cs, ce, total, (s, e) :: l =>
    if s ≤ ce then sweepI64 cs (max ce e) total l else sweepI64 s e (total + i64Sub ce cs) l

/-- `union_len`. -/
def unionLenI64 (l : List (ℤ × ℤ)) : ℤ :=
  match sortIntervals l with
  | [] => 0
  | (cs, ce) :: rest => sweepI64 cs ce 0 rest

/-- `n as i64`, of a difference. -/
def narrow (d : ℤ) : ℤ := i64Sub d 0

theorem i64Sub_eq_narrow (a b : ℤ) : i64Sub a b = narrow (a - b) := by
  rw [narrow, i64Sub, i64Sub, sub_zero]

theorem narrow_eq {d : ℤ} (h : 0 ≤ d) (hlt : d < 2 ^ 64) : narrow d = if d < 2 ^ 63 then d else d - 2 ^ 64 := by
  unfold narrow i64Sub i64Min
  split <;> omega

theorem narrow_le {d : ℤ} (h : 0 ≤ d) (hlt : d < 2 ^ 64) : narrow d ≤ d := by
  rw [narrow_eq h hlt]
  split <;> omega

theorem sweepI64_eq_sum : ∀ (l : List (ℤ × ℤ)) (cs ce total : ℤ),
    sweepI64 cs ce total l = total + ((sweepDiffs cs ce l).map narrow).sum
  | [], cs, ce, total => by simp [sweepI64, sweepDiffs, i64Sub_eq_narrow]
  | (s, e) :: l, cs, ce, total => by
    rw [sweepI64, sweepDiffs]
    by_cases h : s ≤ ce
    · rw [if_pos h, if_pos h, sweepI64_eq_sum l]
    · rw [if_neg h, if_neg h, sweepI64_eq_sum l, List.map_cons, List.sum_cons, i64Sub_eq_narrow, add_assoc]

theorem unionLenI64_eq_sum (l : List (ℤ × ℤ)) : unionLenI64 l = ((unionDiffs l).map narrow).sum := by
  unfold unionLenI64 unionDiffs
  cases sortIntervals l with
  | nil => rfl
  | cons i rest => exact (sweepI64_eq_sum rest i.1 i.2 0).trans (zero_add _)

/-! ### What wrapping costs -/

theorem sum_narrow_le : ∀ {ds : List ℤ}, (∀ d ∈ ds, 0 ≤ d ∧ d < 2 ^ 64) → (ds.map narrow).sum ≤ ds.sum
  | [], _ => le_rfl
  | d :: ds, h => by
    have hd := h d List.mem_cons_self
    have hrest := sum_narrow_le fun d' hd' => h d' (List.mem_cons_of_mem _ hd')
    have := narrow_le hd.1 hd.2
    rw [List.map_cons, List.sum_cons, List.sum_cons]
    omega

theorem sum_narrow_eq_iff : ∀ {ds : List ℤ}, (∀ d ∈ ds, 0 ≤ d ∧ d < 2 ^ 64) →
    ((ds.map narrow).sum = ds.sum ↔ ∀ d ∈ ds, d < 2 ^ 63)
  | [], _ => by simp
  | d :: ds, h => by
    have hd := h d List.mem_cons_self
    have hds : ∀ d' ∈ ds, 0 ≤ d' ∧ d' < 2 ^ 64 := fun d' hd' => h d' (List.mem_cons_of_mem _ hd')
    have hle := sum_narrow_le hds
    have hcase := narrow_eq hd.1 hd.2
    rw [List.map_cons, List.sum_cons, List.sum_cons, List.forall_mem_cons, ← sum_narrow_eq_iff hds]
    constructor
    · intro heq
      split at hcase
      · exact ⟨by assumption, by omega⟩
      · omega
    · rintro ⟨hlt, heq⟩
      rw [if_pos hlt] at hcase
      omega

variable {l : List (ℤ × ℤ)}

theorem unionDiffs_narrow (h : ∀ i ∈ l, Within i64Min i64Max i) : ∀ d ∈ unionDiffs l, 0 ≤ d ∧ d < 2 ^ 64 := by
  intro d hd
  have := unionDiffs_bounds h d hd
  unfold i64Max i64Min at this
  omega

/-- The result is never more than the measure. -/
theorem unionLenI64_le (h : ∀ i ∈ l, Within i64Min i64Max i) : unionLenI64 l ≤ (covered l).card := by
  rw [unionLenI64_eq_sum, ← unionLen_eq_card fun i hi => (h i hi).2.1, ← sum_unionDiffs]
  exact sum_narrow_le (unionDiffs_narrow h)

/-- **The sweep measures the union** unless `2^63` integers in a row are
covered. -/
theorem unionLenI64_eq_iff (h : ∀ i ∈ l, Within i64Min i64Max i) :
    unionLenI64 l = (covered l).card ↔ ∀ x, ¬ points (x, x + 2 ^ 63) ⊆ covered l := by
  have hle : ∀ i ∈ l, i.1 ≤ i.2 := fun i hi => (h i hi).2.1
  rw [unionLenI64_eq_sum, ← unionLen_eq_card hle, ← sum_unionDiffs, sum_narrow_eq_iff (unionDiffs_narrow h),
    ← not_exists, ← exists_unionDiffs_iff (by decide) hle]
  push Not
  rfl

/-! ### Clipped intervals -/

theorem covered_subset {b : ℤ × ℤ} (h : ∀ c ∈ l, points c ⊆ points b) : covered l ⊆ points b := by
  intro x hx
  obtain ⟨c, hc, hxc⟩ := mem_covered.mp hx
  exact h c hc hxc

theorem clipInterval_within {a b c : ℤ × ℤ} (hb : Within i64Min i64Max b) (h : clipInterval a b = some c) :
    Within i64Min i64Max c ∧ points c ⊆ points b := by
  obtain ⟨hpoints, -⟩ := clipInterval_some h
  refine ⟨?_, hpoints ▸ Finset.inter_subset_right⟩
  obtain ⟨hlo, -, hhi⟩ := hb
  unfold clipInterval at h
  split at h
  · obtain rfl := Option.some.inj h
    exact ⟨by simp only; omega, by simp only; omega, by simp only; omega⟩
  · cases h

/-- Intervals that were clipped to `b` measure `b`'s length at most. -/
theorem unionLenI64_clipped {b : ℤ × ℤ} (hb : Within i64Min i64Max b) (h : ∀ c ∈ l, ∃ a, clipInterval a b = some c) :
    unionLenI64 l ≤ intervalLen b := by
  have hin : ∀ c ∈ l, Within i64Min i64Max c ∧ points c ⊆ points b := fun c hc =>
    let ⟨_, ha⟩ := h c hc
    clipInterval_within hb ha
  have hcard : ((points b).card : ℤ) = intervalLen b := card_points hb.2.1
  calc unionLenI64 l ≤ (covered l).card := unionLenI64_le fun c hc => (hin c hc).1
    _ ≤ (points b).card := by exact_mod_cast Finset.card_le_card (covered_subset fun c hc => (hin c hc).2)
    _ = intervalLen b := hcard

/-! ### The children of a span -/

section
variable (intervals : List (ℤ × ℤ)) (parents traces : List ℕ) (byId : FMap (ℕ × ℕ) ℕ)

/-- The children gathered under a span were clipped to it. -/
def ChildScan.Clipped (acc : ChildScan) : Prop :=
  ∀ p cs, acc.children.get? p = some cs → ∀ c ∈ cs, ∃ a, clipInterval a (intervals.getD p (0, 0)) = some c

variable {intervals parents traces byId}

theorem ChildScan.Clipped.addChild {acc : ChildScan} (h : acc.Clipped intervals) (i p : ℕ) :
    (acc.addChild intervals i p).Clipped intervals := by
  cases hclip : clipInterval (intervals.getD i (0, 0)) (intervals.getD p (0, 0)) with
  | none =>
    simp only [ChildScan.addChild, hclip]
    exact h
  | some c =>
    intro p' cs hcs c' hc'
    simp only [ChildScan.addChild, hclip, FMap.get?_insert] at hcs
    by_cases hp : p' = p
    · subst hp
      rw [if_pos rfl] at hcs
      obtain rfl := Option.some.inj hcs
      rcases List.mem_append.mp hc' with hc' | hc'
      · cases hold : acc.children.get? p' with
        | none =>
          rw [hold] at hc'
          exact absurd hc' List.not_mem_nil
        | some cs =>
          rw [hold] at hc'
          exact h p' cs hold c' hc'
      · obtain rfl := List.mem_singleton.mp hc'
        exact ⟨_, hclip⟩
    · rw [if_neg hp] at hcs
      exact h p' cs hcs c' hc'

theorem ChildScan.Clipped.turn {acc : ChildScan} (h : acc.Clipped intervals) (i parentId trace : ℕ) :
    (acc.turn intervals parents traces byId i parentId trace).Clipped intervals := by
  unfold ChildScan.turn
  split
  · exact h
  · split
    · exact h
    · split
      · exact h
      · exact h.addChild i _

theorem scanChildren_clipped : (scanChildren intervals parents traces byId).Clipped intervals := by
  have hfold : ∀ (turns : List ((ℕ × ℕ) × ℕ)) (acc : ChildScan), acc.Clipped intervals →
      (turns.foldl (fun acc q => acc.turn intervals parents traces byId q.2 q.1.1 q.1.2) acc).Clipped intervals := by
    intro turns
    induction turns with
    | nil => exact fun _ h => h
    | cons q turns ih => exact fun acc h => ih _ (h.turn q.2 q.1.1 q.1.2)
  exact hfold _ _ fun p cs h => nomatch h

end

/-- **`union_len` measures the union exactly when no `2^63` covered integers
lie in a row.** On intervals clipped to another it never exceeds that one's
length, so a duration that passed the check on it (`classify`) is never less
than the union of the span's children. -/
theorem union_len_exact_iff (h : ∀ i ∈ l, Within i64Min i64Max i) :
    (unionLenI64 l = (covered l).card ∧
      (∀ b, Within i64Min i64Max b → unionLenI64 (l.filterMap fun a => clipInterval a b) ≤ intervalLen b) ∧
      ∀ (parents traces : List ℕ) (byId : FMap (ℕ × ℕ) ℕ) (p : ℕ) (span : ℤ × ℤ), l[p]? = some span →
        0 ≤ i64Sub span.2 span.1 →
        0 ≤ i64Sub span.2 span.1 - unionLenI64 (((scanChildren l parents traces byId).children.get? p).getD [])) ↔
      ∀ x, ¬ points (x, x + 2 ^ 63) ⊆ covered l := by
  rw [← unionLenI64_eq_iff h]
  refine ⟨fun hall => hall.1, fun heq => ⟨heq, fun b hb => ?_, fun parents traces byId p span hp hd => ?_⟩⟩
  · refine unionLenI64_clipped hb fun c hc => ?_
    obtain ⟨a, -, ha⟩ := List.mem_filterMap.mp hc
    exact ⟨a, ha⟩
  · have hspan : Within i64Min i64Max span := h span (List.mem_of_getElem? hp)
    have hget : l.getD p (0, 0) = span := by rw [List.getD_eq_getElem?_getD, hp, Option.getD_some]
    have hclipped := @scanChildren_clipped l parents traces byId p
    rw [hget] at hclipped
    have hunion : unionLenI64 (((scanChildren l parents traces byId).children.get? p).getD []) ≤ intervalLen span := by
      refine unionLenI64_clipped hspan fun c hc => ?_
      cases hcs : (scanChildren l parents traces byId).children.get? p with
      | none =>
        rw [hcs] at hc
        exact absurd hc List.not_mem_nil
      | some cs =>
        rw [hcs] at hc
        exact hclipped cs hcs c hc
    have hlen : intervalLen span = i64Sub span.2 span.1 := by
      obtain ⟨hlo, hle, hhi⟩ := hspan
      unfold intervalLen
      unfold i64Sub i64Max i64Min at *
      omega
    omega

/-- Two spans that overlap, each short enough for an `i64`; what they cover is
not. -/
def longSpans : List (ℤ × ℤ) := [(-5000000000000000000, 1), (-1, 5000000000000000000)]

theorem union_len_exact_short :
    unionLenI64 [(10, 20), (15, 30), (40, 50)] = (covered [(10, 20), (15, 30), (40, 50)]).card := by
  have hshort : ∀ x : ℤ, ¬ points (x, x + 2 ^ 63) ⊆ covered [(10, 20), (15, 30), (40, 50)] := by
    intro x hx
    have hin := hx (mem_points.mpr (show x ≤ x + 100 ∧ x + 100 < x + 2 ^ 63 by omega))
    have hin' := hx (mem_points.mpr (show x ≤ x ∧ x < x + 2 ^ 63 by omega))
    simp only [mem_covered, mem_points, List.mem_cons, List.not_mem_nil, or_false, exists_eq_or_imp,
      exists_eq_left] at hin hin'
    omega
  exact ((union_len_exact_iff (by simp [Within, i64Min, i64Max])).mpr hshort).1

theorem union_len_wraps :
    ¬ ∀ l : List (ℤ × ℤ), (∀ i ∈ l, Within i64Min i64Max i) → unionLenI64 l = (covered l).card := by
  intro h
  have hwithin : ∀ i ∈ longSpans, Within i64Min i64Max i := by simp [longSpans, Within, i64Min, i64Max]
  have hnegative : unionLenI64 longSpans = -8446744073709551616 := by decide
  have := h longSpans hwithin
  omega

end Logmon
