/-
# The two self times

`path_aggregates` adds up the self times of the spans by call path, and
`self_time`, behind `sampled_view`, over all of them. Each files the children
under their parents itself. They differ in two things: `self_time` reads the
intervals out of the vector that has been sorted by then, and it passes over a
child that its parent claims back, while `path_aggregates` passes over nothing
but a span that is its own parent.

So where the intervals are read in place the two sums agree exactly if what a
parent shares with a child it claims back lies within other children of its
own (`paths_agree_iff`).

Key definitions: `PathsAgree`, `TakenInPlace`, `SharedCovered`.
Key theorems: `pathChildren_eq`, `paths_agree_iff`.
-/
import Logmon.Collector.Paths
import Mathlib.Algebra.Order.BigOperators.Group.List

namespace Logmon

open Lib

variable {rs : List SampleRecord}

/-! ### The children of a path -/

theorem children_addChild (I : List (ℤ × ℤ)) (acc : ChildScan) (i p : ℕ) :
    (acc.addChild I i p).children = pathChild I acc.children i p := by
  unfold ChildScan.addChild pathChild
  dsimp only
  cases clipInterval (I.getD i (0, 0)) (I.getD p (0, 0)) <;> rfl

theorem children_foldl (I : List (ℤ × ℤ)) (es : List (ℕ × ℕ)) : ∀ acc : ChildScan,
    (es.foldl (fun acc e => acc.addChild I e.1 e.2) acc).children =
      es.foldl (fun children e => pathChild I children e.1 e.2) acc.children := by
  induction es with
  | nil => exact fun _ => rfl
  | cons e es ih =>
    intro acc
    rw [List.foldl_cons, List.foldl_cons, ih, children_addChild]

/-- **Path aggregation takes every pair of two spans.** -/
theorem pathChildren_eq (rs : List SampleRecord) (I : List (ℤ × ℤ)) :
    pathChildren I (Columns.of true rs).parents (Columns.of true rs).traces (Columns.of true rs).byId =
      (pathPairs rs).foldl (fun children e => pathChild I children e.1 e.2) ∅ := by
  unfold pathChildren pathPairs
  rw [zipIdx_columns, List.foldl_map, List.foldl_filter, matchedPairs_zipIdx, List.foldl_filterMap]
  refine List.foldl_ext _ _ _ fun acc q hq => ?_
  have hr : rs[q.2]? = some q.1 := List.mk_mem_zipIdx_iff_getElem?.mp hq
  have hparent : parentOf rs q.2 = if q.1.parentSpanId = 0 then none else
      lastPosition (fun s => s.key = (q.1.traceId, q.1.parentSpanId)) rs := by
    unfold parentOf
    rw [hr]
    rfl
  unfold pathTurn
  dsimp only
  rw [(columns_of rs).2.2.2.2, hparent]
  by_cases hroot : q.1.parentSpanId = 0
  · rw [if_pos hroot, if_pos hroot]
    rfl
  · rw [if_neg hroot, if_neg hroot]
    cases lastPosition (fun s => s.key = (q.1.traceId, q.1.parentSpanId)) rs with
    | none => rfl
    | some p =>
      by_cases hself : p = q.2
      · simp [hself]
      · simp [hself, Ne.symm hself]

/-- What the pairs file under each parent, with the intervals `J` read for
`I`. -/
theorem indexes_pairs {I : List (ℤ × ℤ)} {J : ℕ → ℤ × ℤ} (hJ : ∀ i, I.getD i (0, 0) = J i) (es : List (ℕ × ℕ)) :
    Indexes (es.foldl (fun children e => pathChild I children e.1 e.2) ∅) fun p =>
      (es.filter fun e => e.2 = p).filterMap (clipOf J) := by
  have hindex := (foldl_addChild hJ es ⟨∅, 0, 0, 0⟩).2.2.2 _ indexes_empty
  rw [children_foldl] at hindex
  simpa only [List.nil_append] using hindex

/-- The self times of the paths add up to what is left of the spans after every
pair. -/
theorem sum_paths (order : MapOrder) (interner : Interner) (samples : SampleSnapshot) (cutNs : Option ℤ) :
    ((pathAggregates order interner samples cutNs).map PathAggregate.selfNs).sum =
      ((List.range (retained samples cutNs).length).map fun p =>
        ((points (intervalAt (retained samples cutNs) p)).card : ℤ) -
          (coveredBy (retained samples cutNs) (pathPairs (retained samples cutNs)) p).card).sum := by
  rw [sum_pathAggregates]
  generalize retained samples cutNs = rs
  obtain ⟨hd, hi, -⟩ := columns_of rs
  have hindex := @indexes_pairs (rs.map SampleRecord.interval) (intervalAt rs) (fun _ => rfl) (pathPairs rs)
  rw [pathChildren_eq, hi, hd]
  exact sum_durations hindex

/-! ### The two sums -/

/-- What `sampled_view` obtains from `self_time`. -/
def sampledSelfNs (rs : List SampleRecord) : ℤ :=
  (selfTime (sortIntervals (Columns.of true rs).intervals) (Columns.of true rs).parents (Columns.of true rs).traces
    (Columns.of true rs).byId (Columns.of true rs).durations).selfNs

/-- The rows of `path_aggregates` add up to it. -/
def PathsAgree (order : MapOrder) (interner : Interner) (samples : SampleSnapshot) (cutNs : Option ℤ) : Prop :=
  ((pathAggregates order interner samples cutNs).map PathAggregate.selfNs).sum = sampledSelfNs (retained samples cutNs)

/-- Every child that is taken, and its parent, stands where its interval sorts
to. -/
def TakenInPlace (rs : List SampleRecord) : Prop :=
  ∀ e ∈ takenPairs rs, sortedAt rs e.1 = intervalAt rs e.1 ∧ sortedAt rs e.2 = intervalAt rs e.2

/-- What a parent shares with a child it claims back lies within its other
children. -/
def SharedCovered (rs : List SampleRecord) : Prop :=
  ∀ e ∈ pathPairs rs, claimsBack rs e = true → ∀ t ∈ points (intervalAt rs e.1), t ∈ points (intervalAt rs e.2) →
    ∃ e' ∈ takenPairs rs, e'.2 = e.2 ∧ t ∈ points (intervalAt rs e'.1)

/-- Self time over the pairs taken, where those are read in place. -/
theorem sampledSelfNs_eq (hplace : TakenInPlace rs) : sampledSelfNs rs =
    ((List.range rs.length).map fun p =>
      ((points (intervalAt rs p)).card : ℤ) - (coveredBy rs (takenPairs rs) p).card).sum := by
  obtain ⟨hd, hi, -⟩ := columns_of rs
  have hindex : Indexes ((takenPairs rs).foldl (fun (acc : ChildScan) e => acc.addChild (sortIntervals (rs.map SampleRecord.interval))
      e.1 e.2) ⟨∅, 0, 0, 0⟩).children fun p => ((takenPairs rs).filter fun e => e.2 = p).filterMap (clipOf (intervalAt rs)) := by
    intro p
    rw [children_foldl,
      @indexes_pairs (sortIntervals (rs.map SampleRecord.interval)) (sortedAt rs) (fun _ => rfl) (takenPairs rs) p]
    refine congrArg listed (List.filterMap_congr fun e he => ?_)
    obtain ⟨hchild, hparent⟩ := hplace e (List.mem_filter.mp he).1
    unfold clipOf
    rw [hchild, hparent]
  unfold sampledSelfNs selfTime
  rw [scanChildren_taken, hd, hi]
  exact sum_durations hindex

/-- A span keeps the same self time after the pairs taken and after all pairs
exactly where the same of it is covered. -/
theorem coveredBy_le (rs : List SampleRecord) (p : ℕ) : coveredBy rs (takenPairs rs) p ⊆ coveredBy rs (pathPairs rs) p := by
  intro x hx
  obtain ⟨e, he, hp, hx⟩ := mem_coveredBy.mp hx
  exact mem_coveredBy.mpr ⟨e, List.mem_of_mem_filter he, hp, hx⟩

theorem sharedCovered_iff (rs : List SampleRecord) :
    SharedCovered rs ↔ ∀ p < rs.length, coveredBy rs (takenPairs rs) p = coveredBy rs (pathPairs rs) p := by
  constructor
  · intro h p _
    refine (coveredBy_le rs p).antisymm fun t ht => ?_
    obtain ⟨e, he, rfl, hchild, hparent⟩ := mem_coveredBy.mp ht
    cases hback : claimsBack rs e with
    | false => exact mem_coveredBy.mpr ⟨e, List.mem_filter.mpr ⟨he, by simp [hback]⟩, rfl, hchild, hparent⟩
    | true =>
      obtain ⟨e', he', hp, ht'⟩ := h e he hback t hchild hparent
      exact mem_coveredBy.mpr ⟨e', he', hp, ht', hparent⟩
  · intro h e he _ t hchild hparent
    obtain ⟨_, q, _, hq, _⟩ := records_of_parentOf (mem_matchedPairs.mp (List.mem_of_mem_filter he))
    have ht : t ∈ coveredBy rs (pathPairs rs) e.2 := mem_coveredBy.mpr ⟨e, he, rfl, hchild, hparent⟩
    rw [← h e.2 (List.getElem?_eq_some_iff.mp hq).1] at ht
    obtain ⟨e', he', hp, ht', -⟩ := mem_coveredBy.mp ht
    exact ⟨e', he', hp, ht'⟩

/-- **The two self times agree exactly where** what a parent shares with a child
it claims back lies within its other children, in every sample whose taken
pairs are read in place. -/
theorem paths_agree_iff (order : MapOrder) (interner : Interner) (samples : SampleSnapshot) (cutNs : Option ℤ)
    (hplace : TakenInPlace (retained samples cutNs)) :
    PathsAgree order interner samples cutNs ↔ SharedCovered (retained samples cutNs) := by
  unfold PathsAgree
  rw [sum_paths, sampledSelfNs_eq hplace, sharedCovered_iff]
  generalize retained samples cutNs = rs
  have hle : ∀ p ∈ List.range rs.length,
      ((points (intervalAt rs p)).card : ℤ) - (coveredBy rs (pathPairs rs) p).card ≤
        ((points (intervalAt rs p)).card : ℤ) - (coveredBy rs (takenPairs rs) p).card := by
    intro p _
    have := Finset.card_le_card (coveredBy_le rs p)
    omega
  constructor
  · intro hsum p hp
    refine Finset.eq_of_subset_of_card_le (coveredBy_le rs p) ?_
    by_contra hlt
    refine absurd hsum (ne_of_lt (List.sum_lt_sum _ _ hle ⟨p, List.mem_range.mpr hp, ?_⟩))
    omega
  · intro h
    congr 1
    refine List.map_congr_left fun p hp => ?_
    rw [h p (List.mem_range.mp hp)]

theorem paths_agree_in_place :
    PathsAgree .asListed (Interner.new 4) (threeSpans [1, 2, 3] [0, 1, 1] [10, 20, 40] [110, 70, 100]) none := by
  refine (paths_agree_iff .asListed (Interner.new 4) (threeSpans [1, 2, 3] [0, 1, 1] [10, 20, 40] [110, 70, 100]) none
    (by unfold TakenInPlace; decide +kernel)).mpr fun e he hback => ?_
  have hnone : ∀ e ∈ pathPairs (retained (threeSpans [1, 2, 3] [0, 1, 1] [10, 20, 40] [110, 70, 100]) none),
      claimsBack (retained (threeSpans [1, 2, 3] [0, 1, 1] [10, 20, 40] [110, 70, 100]) none) e = false := by
    decide +kernel
  rw [hnone e he] at hback
  cases hback

/-- Two spans that claim each other: the paths lose what they share twice over
and `self_time` keeps it. And a root that arrives last, whose interval and a
child's change places. -/
theorem paths_disagree :
    ¬ PathsAgree .asListed (Interner.new 4) (threeSpans [1, 2, 3] [2, 1, 0] [10, 20, 200] [110, 70, 210]) none ∧
      ¬ PathsAgree .asListed (Interner.new 4) (threeSpans [2, 3, 1] [1, 1, 0] [10, 40, 10] [70, 100, 110]) none := by
  unfold PathsAgree
  rw [sum_pathAggregates, sum_pathAggregates]
  decide +kernel

end Logmon
