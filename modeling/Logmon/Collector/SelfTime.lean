/-
# Self time, and the order spans arrive in

What `sampled_view` reports of nested spans, against the definition: a span's
self time is its duration less the measure of its matched children's time
inside it, and a child needed clipping when some of it lies outside its parent.
A child's parent is the last retained span of its trace with the id it names.

`self_time` reads a span's interval at the span's index, out of a vector that
`union_len` has sorted by then. So the report is right when every matched
child, and its parent, stands where its interval sorts to, and otherwise mixes
up the intervals of different spans (`self_time_of_late_parent`). Two smaller
slips are met on the way: a child of no duration counts as clipped, and a span
with id 0 under a root is taken for the root's own parent.

Key definitions: `parentOf`, `matchedPairs`, `selfTimeOf`, `clippedAwayOf`,
`clippedChildrenOf`, `InPlace`, `ReportsSelfTime`.
Key theorems: `selfTime_eq`, `selfTimeOf_perm`, `reports_self_time_iff`.
-/
import Logmon.Collector.Project
import Logmon.Lib.Index
import Mathlib.Logic.Relation

namespace Logmon

open Lib

/-! ### What self time is -/

def SampleRecord.interval (r : SampleRecord) : ℤ × ℤ := (r.startNs, r.endNs)

def SampleRecord.key (r : SampleRecord) : ℕ × ℕ := (r.traceId, r.spanId)

/-- Where the span at `i` has its parent: the last span of its trace with the
id it names, 0 naming none. -/
def parentOf (rs : List SampleRecord) (i : ℕ) : Option ℕ :=
  rs[i]?.bind fun r =>
    if r.parentSpanId = 0 then none else lastPosition (fun q => q.key = (r.traceId, r.parentSpanId)) rs

/-- The spans with a matched parent, each with it. -/
def matchedPairs (rs : List SampleRecord) : List (ℕ × ℕ) :=
  (List.range rs.length).filterMap fun i => (parentOf rs i).map fun p => (i, p)

def intervalAt (rs : List SampleRecord) (i : ℕ) : ℤ × ℤ := (rs.map SampleRecord.interval).getD i (0, 0)

/-- What the children of the span at `p` cover of it. -/
noncomputable def childTime (rs : List SampleRecord) (p : ℕ) : Finset ℤ :=
  ((matchedPairs rs).filter fun e => e.2 = p).toFinset.biUnion fun e =>
    points (intervalAt rs e.1) ∩ points (intervalAt rs p)

/-- The sum of the self times. -/
noncomputable def selfTimeOf (rs : List SampleRecord) : ℤ :=
  ((List.range rs.length).map fun p => intervalLen (intervalAt rs p) - (childTime rs p).card).sum

/-- The child time outside its parent. -/
noncomputable def clippedAwayOf (rs : List SampleRecord) : ℤ :=
  ((matchedPairs rs).map fun e =>
    intervalLen (intervalAt rs e.1) - (points (intervalAt rs e.1) ∩ points (intervalAt rs e.2)).card).sum

/-- The children with time outside their parent. -/
noncomputable def clippedChildrenOf (rs : List SampleRecord) : ℕ :=
  ((matchedPairs rs).filter fun e => ¬ points (intervalAt rs e.1) ⊆ points (intervalAt rs e.2)).length

/-! ### The columns -/

variable {rs : List SampleRecord}

theorem columns_of (rs : List SampleRecord) :
    (Columns.of true rs).durations = rs.map (fun r => intervalLen r.interval) ∧
      (Columns.of true rs).intervals = rs.map SampleRecord.interval ∧
      (Columns.of true rs).parents = rs.map SampleRecord.parentSpanId ∧
      (Columns.of true rs).traces = rs.map SampleRecord.traceId ∧
      ∀ k, (Columns.of true rs).byId.get? k = lastPosition (fun r => r.key = k) rs := by
  induction rs using List.reverseRecOn with
  | nil => exact ⟨rfl, rfl, rfl, rfl, fun _ => rfl⟩
  | append_singleton rs r ih =>
    obtain ⟨hd, hi, hp, ht, hid⟩ := ih
    have hof : Columns.of true (rs ++ [r]) = (Columns.of true rs).add true r := by
      unfold Columns.of
      rw [List.foldl_append]
      rfl
    rw [hof]
    unfold Columns.add
    simp only [hd, hi, hp, ht, List.map_append, if_true]
    refine ⟨rfl, rfl, rfl, rfl, fun k => ?_⟩
    rw [FMap.get?_insert, hid k, lastPosition_append, List.length_map]
    by_cases hk : k = (r.traceId, r.spanId)
    · rw [if_pos hk, if_pos (by rw [hk]; simp [SampleRecord.key])]
    · rw [if_neg hk, if_neg fun h => hk (of_decide_eq_true h).symm]

/-! ### The spans the loop takes -/

/-- No chain of parents comes back to where it started. -/
def Acyclic (rs : List SampleRecord) : Prop := ∀ i, ¬ Relation.TransGen (fun a b => parentOf rs a = some b) i i

/-- No matched child of a root is the last span of its trace with the id 0,
which in a root stands for no parent. -/
def NoZeroChild (rs : List SampleRecord) : Prop :=
  ∀ e ∈ matchedPairs rs, ∀ q ∈ rs[e.2]?, q.parentSpanId = 0 →
    lastPosition (fun s => s.key = (q.traceId, 0)) rs ≠ some e.1

theorem mem_matchedPairs {e : ℕ × ℕ} : e ∈ matchedPairs rs ↔ parentOf rs e.1 = some e.2 := by
  obtain ⟨i, p⟩ := e
  unfold matchedPairs
  rw [List.mem_filterMap]
  constructor
  · rintro ⟨j, -, hj⟩
    obtain ⟨p', hp', he⟩ := Option.map_eq_some_iff.mp hj
    obtain ⟨rfl, rfl⟩ := Prod.mk.inj he
    exact hp'
  · intro h
    refine ⟨i, List.mem_range.mpr ?_, by rw [h]; rfl⟩
    obtain ⟨r, hr, -⟩ := Option.bind_eq_some_iff.mp h
    exact (List.getElem?_eq_some_iff.mp hr).1

/-- A matched child, and its parent. -/
theorem records_of_parentOf {i p : ℕ} (h : parentOf rs i = some p) :
    ∃ r q, rs[i]? = some r ∧ rs[p]? = some q ∧ r.parentSpanId ≠ 0 ∧ q.key = (r.traceId, r.parentSpanId) := by
  obtain ⟨r, hr, hp⟩ := Option.bind_eq_some_iff.mp h
  split at hp
  · cases hp
  · rename_i hne
    obtain ⟨⟨q, hq, hkey⟩, -⟩ := lastPosition_eq_some_iff.mp hp
    exact ⟨r, q, hr, hq, hne, of_decide_eq_true hkey⟩

theorem getD_map_of_getElem? {α β : Type} {l : List α} {f : α → β} {i : ℕ} {a : α} (h : l[i]? = some a) (d : β) :
    (l.map f).getD i d = f a := by
  rw [List.getD_eq_getElem?_getD, List.getElem?_map, h]
  rfl

/-- The pairs of two spans. -/
def pathPairs (rs : List SampleRecord) : List (ℕ × ℕ) := (matchedPairs rs).filter fun e => e.1 ≠ e.2

/-- The parent names the child for its own parent; a root names the id 0. -/
def claimsBack (rs : List SampleRecord) (e : ℕ × ℕ) : Bool :=
  rs[e.2]?.any fun q => lastPosition (fun s => s.key = (q.traceId, q.parentSpanId)) rs = some e.1

/-- The pairs the loop takes. -/
def takenPairs (rs : List SampleRecord) : List (ℕ × ℕ) := (pathPairs rs).filter fun e => !claimsBack rs e

/-- One turn: a matched child is taken, unless it is its own parent or its
parent claims it back. -/
theorem turn_eq (I : List (ℤ × ℤ)) (acc : ChildScan) {i : ℕ} {r : SampleRecord} (hr : rs[i]? = some r) :
    acc.turn I (Columns.of true rs).parents (Columns.of true rs).traces (Columns.of true rs).byId i r.parentSpanId
        r.traceId =
      match parentOf rs i with
      | none => acc
      | some p => if i ≠ p then (if (!claimsBack rs (i, p)) = true then acc.addChild I i p else acc) else acc := by
  obtain ⟨-, -, hparents, htraces, hid⟩ := columns_of rs
  have hparent : parentOf rs i = if r.parentSpanId = 0 then none else
      lastPosition (fun q => q.key = (r.traceId, r.parentSpanId)) rs := by
    unfold parentOf
    rw [hr]
    rfl
  unfold ChildScan.turn
  rw [hid, hparents, htraces]
  by_cases hroot : r.parentSpanId = 0
  · rw [if_pos hroot, hparent, if_pos hroot]
  rw [if_neg hroot]
  rw [if_neg hroot] at hparent
  rw [← hparent]
  cases hp : parentOf rs i with
  | none => rfl
  | some p =>
    obtain ⟨-, q, -, hq, -, -⟩ := records_of_parentOf hp
    have hback : claimsBack rs (i, p) =
        decide (lastPosition (fun s => s.key = (q.traceId, q.parentSpanId)) rs = some i) := by
      unfold claimsBack
      rw [hq]
      rfl
    simp only
    rw [hid, getD_map_of_getElem? hq, getD_map_of_getElem? hq, hback]
    by_cases hself : p = i
    · rw [if_pos (.inl hself), if_neg (by simp [hself])]
    · rw [if_pos (Ne.symm hself)]
      by_cases hclaims : lastPosition (fun s => s.key = (q.traceId, q.parentSpanId)) rs = some i
      · rw [if_pos (.inr hclaims), if_neg (by simp [hclaims])]
      · rw [if_neg (by simp [hself, hclaims]), if_pos (by simp [hclaims])]

theorem matchedPairs_zipIdx (rs : List SampleRecord) :
    matchedPairs rs = rs.zipIdx.filterMap fun q => (parentOf rs q.2).map fun p => (q.2, p) := by
  unfold matchedPairs
  rw [List.range_eq_range', ← List.zipIdx_map_snd 0 rs, List.filterMap_map]
  rfl

theorem zipIdx_columns (rs : List SampleRecord) :
    ((Columns.of true rs).parents.zip (Columns.of true rs).traces).zipIdx =
      rs.zipIdx.map fun q => ((q.1.parentSpanId, q.1.traceId), q.2) := by
  rw [(columns_of rs).2.2.1, (columns_of rs).2.2.2.1, List.zip_map', List.zipIdx_map]
  rfl

/-- **The loop takes the pairs one by one.** -/
theorem scanChildren_taken (rs : List SampleRecord) (I : List (ℤ × ℤ)) :
    scanChildren I (Columns.of true rs).parents (Columns.of true rs).traces (Columns.of true rs).byId =
      (takenPairs rs).foldl (fun acc e => acc.addChild I e.1 e.2) ⟨∅, 0, 0, 0⟩ := by
  unfold scanChildren takenPairs pathPairs
  rw [zipIdx_columns, List.foldl_map, List.foldl_filter, List.foldl_filter, matchedPairs_zipIdx, List.foldl_filterMap]
  refine List.foldl_ext _ _ _ fun acc q hq => ?_
  have hr : rs[q.2]? = some q.1 := List.mk_mem_zipIdx_iff_getElem?.mp hq
  rw [turn_eq I acc hr]
  cases parentOf rs q.2 <;> simp

/-- Where no parents go in a circle, no matched child is passed over. -/
theorem takenPairs_eq (hacyclic : Acyclic rs) (hzero : NoZeroChild rs) : takenPairs rs = matchedPairs rs := by
  have hback : ∀ e ∈ matchedPairs rs, claimsBack rs e = false := by
    intro e he
    have hp := mem_matchedPairs.mp he
    obtain ⟨-, q, -, hq, -, -⟩ := records_of_parentOf hp
    by_contra hclaims
    rw [Bool.not_eq_false, claimsBack, hq, Option.any_some, decide_eq_true_eq] at hclaims
    by_cases hqroot : q.parentSpanId = 0
    · rw [hqroot] at hclaims
      exact hzero e he q hq hqroot hclaims
    · -- the parent's own parent would be the span itself
      refine hacyclic e.1 (.tail (.single hp) ?_)
      unfold parentOf
      rw [hq]
      show (if q.parentSpanId = 0 then none else _) = _
      rw [if_neg hqroot]
      exact hclaims
  have hself : ∀ e ∈ matchedPairs rs, e.1 ≠ e.2 := by
    intro e he heq
    have hp := mem_matchedPairs.mp he
    rw [← heq] at hp
    exact hacyclic e.1 (.single hp)
  have hpath : pathPairs rs = matchedPairs rs := List.filter_eq_self.mpr fun e he => by simpa using hself e he
  rw [takenPairs, hpath]
  exact List.filter_eq_self.mpr fun e he => by simpa using hback e he

/-- The loop takes the matched pairs one by one. -/
theorem scanChildren_eq (hacyclic : Acyclic rs) (hzero : NoZeroChild rs) (I : List (ℤ × ℤ)) :
    scanChildren I (Columns.of true rs).parents (Columns.of true rs).traces (Columns.of true rs).byId =
      (matchedPairs rs).foldl (fun acc e => acc.addChild I e.1 e.2) ⟨∅, 0, 0, 0⟩ := by
  rw [scanChildren_taken, takenPairs_eq hacyclic hzero]

/-! ### What the loop gathers -/

section
variable (I : ℕ → ℤ × ℤ)

/-- A child confined to its parent, both with the intervals `I`. -/
def clipOf (e : ℕ × ℕ) : Option (ℤ × ℤ) := clipInterval (I e.1) (I e.2)

/-- What the loop counts as clipped off a child. -/
def lostOf (e : ℕ × ℕ) : ℤ :=
  match clipOf I e with
  | some c => max (intervalLen (I e.1) - intervalLen c) 0
  | none => intervalLen (I e.1)

/-- Whether the loop counts a child as clipped. -/
def countedOf (e : ℕ × ℕ) : Bool :=
  match clipOf I e with
  | some c => decide (intervalLen (I e.1) - intervalLen c > 0)
  | none => true

end

variable {I : List (ℤ × ℤ)} {J : ℕ → ℤ × ℤ}

/-- Taking a child, field by field. -/
theorem addChild_eq (hJ : ∀ i, I.getD i (0, 0) = J i) (acc : ChildScan) (e : ℕ × ℕ) :
    (acc.addChild I e.1 e.2).nestedMatches = acc.nestedMatches + 1 ∧
      (acc.addChild I e.1 e.2).clippedAwayNs = acc.clippedAwayNs + lostOf J e ∧
      (acc.addChild I e.1 e.2).clippedSpans = acc.clippedSpans + (if countedOf J e then 1 else 0) ∧
      ∀ f, Indexes acc.children f →
        Indexes (acc.addChild I e.1 e.2).children (Function.update f e.2 (f e.2 ++ (clipOf J e).toList)) := by
  unfold ChildScan.addChild lostOf countedOf clipOf
  simp only [hJ]
  cases clipInterval (J e.1) (J e.2) with
  | none =>
    refine ⟨rfl, rfl, rfl, fun f hf => ?_⟩
    rw [Option.toList_none, List.append_nil, Function.update_eq_self]
    exact hf
  | some c =>
    refine ⟨rfl, ?_, ?_, fun f hf => hf.push e.2 c⟩
    · simp only
      split <;> omega
    · simp only [decide_eq_true_eq]
      split <;> rfl

/-- **The loop over the pairs.** -/
theorem foldl_addChild (hJ : ∀ i, I.getD i (0, 0) = J i) (es : List (ℕ × ℕ)) (acc : ChildScan) :
    let scan := es.foldl (fun acc e => acc.addChild I e.1 e.2) acc
    scan.nestedMatches = acc.nestedMatches + es.length ∧
      scan.clippedAwayNs = acc.clippedAwayNs + (es.map (lostOf J)).sum ∧
      scan.clippedSpans = acc.clippedSpans + (es.filter (countedOf J)).length ∧
      ∀ f, Indexes acc.children f →
        Indexes scan.children fun p => f p ++ (es.filter fun e => e.2 = p).filterMap (clipOf J) := by
  induction es generalizing acc with
  | nil => exact ⟨rfl, by simp, by simp, fun f hf => by simpa using hf⟩
  | cons e es ih =>
    obtain ⟨hn, hc, hs, hchildren⟩ := addChild_eq hJ acc e
    obtain ⟨hn', hc', hs', hchildren'⟩ := ih (acc.addChild I e.1 e.2)
    refine ⟨?_, ?_, ?_, fun f hf => ?_⟩
    · rw [List.foldl_cons, hn', hn, List.length_cons]
      omega
    · rw [List.foldl_cons, hc', hc, List.map_cons, List.sum_cons, add_assoc]
    · rw [List.foldl_cons, hs', hs, List.filter_cons]
      by_cases h : countedOf J e = true
      · rw [if_pos h, if_pos h, List.length_cons]
        omega
      · rw [if_neg h, if_neg h, Nat.add_zero]
    · rw [List.foldl_cons]
      have hnext := hchildren' _ (hchildren f hf)
      have heq : (fun p => f p ++ ((e :: es).filter fun e => e.2 = p).filterMap (clipOf J)) =
          fun p => Function.update f e.2 (f e.2 ++ (clipOf J e).toList) p ++
            (es.filter fun e => e.2 = p).filterMap (clipOf J) := by
        funext p
        by_cases hp : e.2 = p
        · subst hp
          rw [Function.update_self, List.filter_cons_of_pos (by simp), List.filterMap_cons, List.append_assoc]
          cases clipOf J e <;> rfl
        · rw [Function.update_of_ne fun h => hp h.symm, List.filter_cons_of_neg (by simpa using hp)]
      rw [heq]
      exact hnext

/-! ### Clipping -/

theorem clipInterval_some {a b c : ℤ × ℤ} (h : clipInterval a b = some c) :
    points c = points a ∩ points b ∧ c.1 ≤ c.2 := by
  unfold clipInterval at h
  split at h
  · obtain rfl := Option.some.inj h
    refine ⟨?_, by simp only; omega⟩
    ext x
    simp only [Finset.mem_inter, mem_points]
    omega
  · cases h

theorem clipInterval_none {a b : ℤ × ℤ} (h : clipInterval a b = none) : points a ∩ points b = ∅ := by
  unfold clipInterval at h
  split at h
  · cases h
  · rw [Finset.eq_empty_iff_forall_notMem]
    intro x
    simp only [Finset.mem_inter, mem_points]
    omega

theorem card_inter_le {a b : ℤ × ℤ} (ha : a.1 ≤ a.2) : ((points a ∩ points b).card : ℤ) ≤ intervalLen a := by
  have hcard : ((points a).card : ℤ) = intervalLen a := card_points ha
  rw [← hcard]
  exact_mod_cast Finset.card_le_card Finset.inter_subset_left

theorem lostOf_eq {e : ℕ × ℕ} (h : (J e.1).1 ≤ (J e.1).2) :
    lostOf J e = intervalLen (J e.1) - (points (J e.1) ∩ points (J e.2)).card := by
  unfold lostOf
  cases hc : clipOf J e with
  | none =>
    rw [clipInterval_none hc]
    simp
  | some c =>
    obtain ⟨hpoints, hwf⟩ := clipInterval_some hc
    have hlen : ((points c).card : ℤ) = intervalLen c := card_points hwf
    have hle := @card_inter_le _ (J e.2) h
    rw [hpoints] at hlen
    simp only
    omega

/-- A child that some of lies outside its parent is counted, and so is one of
no duration. -/
theorem countedOf_eq {e : ℕ × ℕ} (h : (J e.1).1 ≤ (J e.1).2) :
    countedOf J e = (decide (¬ points (J e.1) ⊆ points (J e.2)) || decide ((J e.1).1 = (J e.1).2)) := by
  have hlen : ((points (J e.1)).card : ℤ) = intervalLen (J e.1) := card_points h
  unfold countedOf
  cases hc : clipOf J e with
  | none =>
    have hnone := clipInterval_none hc
    by_cases hempty : (J e.1).1 = (J e.1).2
    · simp [hempty]
    · have hmem : (J e.1).1 ∈ points (J e.1) := mem_points.mpr ⟨le_rfl, by omega⟩
      have hnot : ¬ points (J e.1) ⊆ points (J e.2) := by
        intro hsub
        have hin := Finset.mem_inter.mpr ⟨hmem, hsub hmem⟩
        rw [hnone] at hin
        exact absurd hin (Finset.notMem_empty _)
      simp [hnot]
  | some c =>
    obtain ⟨hpoints, hwf⟩ := clipInterval_some hc
    have hclen : ((points c).card : ℤ) = intervalLen c := card_points hwf
    have hne : (J e.1).1 ≠ (J e.1).2 := by
      intro hempty
      have hc' : clipInterval (J e.1) (J e.2) = some c := hc
      unfold clipInterval at hc'
      rw [if_neg (by omega)] at hc'
      cases hc'
    rw [hpoints] at hclen
    have hiff : intervalLen (J e.1) - intervalLen c > 0 ↔ ¬ points (J e.1) ⊆ points (J e.2) := by
      rw [← hlen, ← hclen]
      constructor
      · intro hlt hsub
        rw [Finset.inter_eq_left.mpr hsub] at hlt
        omega
      · intro hnot
        have hssub : points (J e.1) ∩ points (J e.2) ⊂ points (J e.1) :=
          Finset.inter_subset_left.ssubset_of_ne fun heq => hnot (Finset.inter_eq_left.mp heq)
        have := Finset.card_lt_card hssub
        omega
    simp only [hne, decide_false, Bool.or_false]
    exact decide_eq_decide.mpr hiff

theorem length_filter_or {α : Type} {p q : α → Bool} (l : List α) (h : ∀ a ∈ l, q a = true → p a = false) :
    (l.filter fun a => p a || q a).length = (l.filter p).length + (l.filter q).length := by
  induction l with
  | nil => rfl
  | cons a l ih =>
    have hl := ih fun b hb => h b (List.mem_cons_of_mem _ hb)
    have ha := h a List.mem_cons_self
    cases hp : p a <;> cases hq : q a <;> simp_all <;> omega

/-! ### The report -/

/-- The interval read for the span at `i`: the `i`-th of the sorted ones. -/
def sortedAt (rs : List SampleRecord) (i : ℕ) : ℤ × ℤ :=
  (sortIntervals (rs.map SampleRecord.interval)).getD i (0, 0)

/-- Every matched child, and its parent, stands where its interval sorts to. -/
def InPlace (rs : List SampleRecord) : Prop :=
  ∀ e ∈ matchedPairs rs, sortedAt rs e.1 = intervalAt rs e.1 ∧ sortedAt rs e.2 = intervalAt rs e.2

theorem intervalAt_le (hwf : ∀ r ∈ rs, r.startNs ≤ r.endNs) (i : ℕ) : (intervalAt rs i).1 ≤ (intervalAt rs i).2 := by
  unfold intervalAt
  rw [List.getD_eq_getElem?_getD, List.getElem?_map]
  cases hr : rs[i]? with
  | none => exact le_rfl
  | some r => exact hwf r (List.mem_of_getElem? hr)

/-- What the children among the pairs `es` cover of the span at `p`. -/
noncomputable def coveredBy (rs : List SampleRecord) (es : List (ℕ × ℕ)) (p : ℕ) : Finset ℤ :=
  (es.filter fun e => e.2 = p).toFinset.biUnion fun e => points (intervalAt rs e.1) ∩ points (intervalAt rs p)

theorem mem_coveredBy {es : List (ℕ × ℕ)} {p : ℕ} {x : ℤ} :
    x ∈ coveredBy rs es p ↔ ∃ e ∈ es, e.2 = p ∧ x ∈ points (intervalAt rs e.1) ∧ x ∈ points (intervalAt rs p) := by
  simp only [coveredBy, Finset.mem_biUnion, List.mem_toFinset, List.mem_filter, decide_eq_true_eq, Finset.mem_inter,
    and_assoc]

/-- What the children cover, from the clipped intervals. -/
theorem covered_clips (rs : List SampleRecord) (es : List (ℕ × ℕ)) (p : ℕ) :
    covered ((es.filter fun e => e.2 = p).filterMap (clipOf (intervalAt rs))) = coveredBy rs es p := by
  ext x
  rw [mem_covered, mem_coveredBy]
  constructor
  · rintro ⟨c, hc, hx⟩
    obtain ⟨e, he, hclip⟩ := List.mem_filterMap.mp hc
    have hp : e.2 = p := by simpa using (List.mem_filter.mp he).2
    rw [(clipInterval_some hclip).1, Finset.mem_inter, hp] at hx
    exact ⟨e, (List.mem_filter.mp he).1, hp, hx⟩
  · rintro ⟨e, he, rfl, hx⟩
    have hfilter : e ∈ es.filter fun e' => e'.2 = e.2 := List.mem_filter.mpr ⟨he, by simp⟩
    have hinter := Finset.mem_inter.mpr hx
    cases hclip : clipOf (intervalAt rs) e with
    | none =>
      rw [clipInterval_none hclip] at hinter
      exact absurd hinter (Finset.notMem_empty _)
    | some c =>
      refine ⟨c, List.mem_filterMap.mpr ⟨e, hfilter, hclip⟩, ?_⟩
      rw [(clipInterval_some hclip).1]
      exact hinter

theorem coveredBy_subset (rs : List SampleRecord) (es : List (ℕ × ℕ)) (p : ℕ) :
    coveredBy rs es p ⊆ points (intervalAt rs p) := fun _ hx =>
  let ⟨_, _, _, _, hp⟩ := mem_coveredBy.mp hx
  hp

/-- The matched children of no duration. -/
def emptyChildren (rs : List SampleRecord) : List (ℕ × ℕ) :=
  (matchedPairs rs).filter fun e => (intervalAt rs e.1).1 = (intervalAt rs e.1).2

theorem card_points_max (i : ℤ × ℤ) : ((points i).card : ℤ) = max (intervalLen i) 0 := by
  rw [points, Int.card_Ico, Int.toNat_eq_max]
  rfl

/-- The sum over the durations, each with its index. -/
theorem sum_durations {es : List (ℕ × ℕ)} {children : FMap ℕ (List (ℤ × ℤ))}
    (h : Indexes children fun p => (es.filter fun e => e.2 = p).filterMap (clipOf (intervalAt rs))) :
    ((rs.map fun r => intervalLen r.interval).zipIdx.map fun q =>
      max (q.1 - match children.get? q.2 with | none => 0 | some cs => unionLen cs) 0).sum =
      ((List.range rs.length).map fun p => ((points (intervalAt rs p)).card : ℤ) - (coveredBy rs es p).card).sum := by
  have hcover : ∀ p, (match children.get? p with | none => 0 | some cs => unionLen cs) = ((coveredBy rs es p).card : ℤ) := by
    intro p
    have hp := h p
    simp only at hp
    rw [← covered_clips, hp]
    by_cases hnil : (es.filter fun e => e.2 = p).filterMap (clipOf (intervalAt rs)) = []
    · rw [hnil]
      rfl
    · rw [listed_of_ne hnil]
      refine unionLen_eq_card fun c hc => ?_
      obtain ⟨e, -, hclip⟩ := List.mem_filterMap.mp hc
      exact (clipInterval_some hclip).2
  rw [List.zipIdx_map, List.map_map, List.range_eq_range', ← List.zipIdx_map_snd 0 rs, List.map_map]
  congr 1
  refine List.map_congr_left fun q hq => ?_
  have hr : rs[q.2]? = some q.1 := List.mk_mem_zipIdx_iff_getElem?.mp hq
  have hlen : intervalLen q.1.interval = intervalLen (intervalAt rs q.2) := by
    unfold intervalAt
    rw [getD_map_of_getElem? hr]
  have hle := Finset.card_le_card (coveredBy_subset rs es q.2)
  have hcard := card_points_max (intervalAt rs q.2)
  show max (intervalLen q.1.interval - match children.get? q.2 with | none => 0 | some cs => unionLen cs) 0 = _
  rw [hcover, hlen]
  show _ = ((points (intervalAt rs q.2)).card : ℤ) - _
  omega

theorem sum_selfTimes (hwf : ∀ r ∈ rs, r.startNs ≤ r.endNs) {children : FMap ℕ (List (ℤ × ℤ))}
    (h : Indexes children fun p => ((matchedPairs rs).filter fun e => e.2 = p).filterMap (clipOf (intervalAt rs))) :
    ((rs.map fun r => intervalLen r.interval).zipIdx.map fun q =>
      max (q.1 - match children.get? q.2 with | none => 0 | some cs => unionLen cs) 0).sum = selfTimeOf rs := by
  rw [sum_durations h, selfTimeOf]
  congr 1
  refine List.map_congr_left fun p _ => ?_
  have hcard : ((points (intervalAt rs p)).card : ℤ) = intervalLen (intervalAt rs p) := card_points (intervalAt_le hwf p)
  rw [hcard]
  rfl

/-- **Self time where the intervals are read in place.** -/
theorem selfTime_eq (hwf : ∀ r ∈ rs, r.startNs ≤ r.endNs) (hacyclic : Acyclic rs) (hzero : NoZeroChild rs)
    (hplace : InPlace rs) :
    selfTime (sortIntervals (Columns.of true rs).intervals) (Columns.of true rs).parents (Columns.of true rs).traces
        (Columns.of true rs).byId (Columns.of true rs).durations =
      ⟨selfTimeOf rs, (matchedPairs rs).length, clippedAwayOf rs, clippedChildrenOf rs + (emptyChildren rs).length⟩ := by
  obtain ⟨hd, hi, -⟩ := columns_of rs
  have hclip : ∀ e ∈ matchedPairs rs, clipOf (sortedAt rs) e = clipOf (intervalAt rs) e := by
    intro e he
    unfold clipOf
    rw [(hplace e he).1, (hplace e he).2]
  have hlost : ∀ e ∈ matchedPairs rs, lostOf (sortedAt rs) e =
      intervalLen (intervalAt rs e.1) - (points (intervalAt rs e.1) ∩ points (intervalAt rs e.2)).card := by
    intro e he
    rw [← lostOf_eq (intervalAt_le hwf e.1)]
    unfold lostOf
    rw [hclip e he, (hplace e he).1]
  have hcounted : ∀ e ∈ matchedPairs rs, countedOf (sortedAt rs) e =
      (decide (¬ points (intervalAt rs e.1) ⊆ points (intervalAt rs e.2)) ||
        decide ((intervalAt rs e.1).1 = (intervalAt rs e.1).2)) := by
    intro e he
    rw [← countedOf_eq (intervalAt_le hwf e.1)]
    unfold countedOf
    rw [hclip e he, (hplace e he).1]
  obtain ⟨hn, hc, hs, hchildren⟩ := foldl_addChild (I := sortIntervals (rs.map SampleRecord.interval))
    (J := sortedAt rs) (fun _ => rfl) (matchedPairs rs) ⟨∅, 0, 0, 0⟩
  have hindex := hchildren _ indexes_empty
  simp only [List.nil_append] at hindex
  unfold selfTime
  rw [scanChildren_eq hacyclic hzero, hd, hi]
  simp only [SelfTime.mk.injEq]
  refine ⟨sum_selfTimes hwf fun p => ?_, ?_, ?_, ?_⟩
  · rw [hindex p]
    exact congrArg listed (List.filterMap_congr fun e he => hclip e (List.mem_filter.mp he).1)
  · rw [hn, Nat.zero_add]
  · rw [hc, List.map_congr_left hlost, zero_add]
    rfl
  · rw [hs, Nat.zero_add, List.filter_congr hcounted, length_filter_or]
    · rfl
    · -- what has no duration lies inside anything
      intro e _ hempty
      have hnil : points (intervalAt rs e.1) = ∅ := by
        rw [Finset.eq_empty_iff_forall_notMem]
        intro x hx
        rw [mem_points] at hx
        have := of_decide_eq_true hempty
        omega
      rw [hnil]
      simp

/-! ### The order of arrival -/

/-- The matched pairs as records, where an id names one span of a trace. -/
def pairRecords (rs : List SampleRecord) : List (SampleRecord × SampleRecord) :=
  rs.filterMap fun r =>
    if r.parentSpanId = 0 then none
    else (rs.find? fun q => q.key = (r.traceId, r.parentSpanId)).map fun q => (r, q)

theorem find?_key_perm {rs rs' : List SampleRecord} (hperm : rs'.Perm rs) (hkeys : (rs.map SampleRecord.key).Nodup)
    (k : ℕ × ℕ) : (rs'.find? fun q => q.key = k) = rs.find? fun q => q.key = k := by
  have hkeys' : (rs'.map SampleRecord.key).Nodup := (hperm.map _).nodup_iff.mpr hkeys
  cases h : rs.find? fun q => q.key = k with
  | none =>
    rw [List.find?_eq_none] at h ⊢
    exact fun q hq => h q (hperm.mem_iff.mp hq)
  | some q =>
    have hq : q.key = k := by simpa using List.find?_some h
    have hmem : q ∈ rs' := hperm.mem_iff.mpr (List.mem_of_find?_eq_some h)
    obtain ⟨q', hq'⟩ := Option.isSome_iff_exists.mp (List.find?_isSome.mpr ⟨q, hmem, decide_eq_true hq⟩ :
      (rs'.find? fun q => q.key = k).isSome)
    have hkey : q'.key = k := by simpa using List.find?_some hq'
    rw [hq', List.inj_on_of_nodup_map hkeys' (List.mem_of_find?_eq_some hq') hmem (hkey.trans hq.symm)]

/-- Where ids are distinct, the last span with an id is the one with it. -/
theorem lastPosition_bind (hkeys : (rs.map SampleRecord.key).Nodup) (k : ℕ × ℕ) :
    ((lastPosition (fun q => q.key = k) rs).bind fun p => rs[p]?) = rs.find? fun q => q.key = k := by
  cases h : lastPosition (fun q => q.key = k) rs with
  | none =>
    symm
    rw [Option.bind_none, List.find?_eq_none]
    intro q hq
    have := lastPosition_eq_none_iff.mp h q hq
    simpa using this
  | some p =>
    obtain ⟨⟨q, hq, hk⟩, -⟩ := lastPosition_eq_some_iff.mp h
    have hmem := List.mem_of_getElem? hq
    obtain ⟨q', hq'⟩ := Option.isSome_iff_exists.mp (List.find?_isSome.mpr ⟨q, hmem, hk⟩ :
      (rs.find? fun q => q.key = k).isSome)
    have hkey : q'.key = q.key := (by simpa using List.find?_some hq' : q'.key = k).trans (of_decide_eq_true hk).symm
    rw [hq', Option.bind_some, hq, List.inj_on_of_nodup_map hkeys (List.mem_of_find?_eq_some hq') hmem hkey]

/-- What is read off the matched pairs is read off their records. -/
theorem map_matchedPairs {β : Type} (hkeys : (rs.map SampleRecord.key).Nodup) (G : ℤ × ℤ → ℤ × ℤ → β) :
    ((matchedPairs rs).map fun e => G (intervalAt rs e.1) (intervalAt rs e.2)) =
      (pairRecords rs).map fun q => G q.1.interval q.2.interval := by
  have hzip : pairRecords rs = rs.zipIdx.filterMap fun q =>
      if q.1.parentSpanId = 0 then none
      else (rs.find? fun p => p.key = (q.1.traceId, q.1.parentSpanId)).map fun p => (q.1, p) := by
    unfold pairRecords
    conv_lhs => rw [← List.zipIdx_map_fst 0 rs, List.filterMap_map, List.zipIdx_map_fst 0 rs]
    rfl
  have hpairs : matchedPairs rs = rs.zipIdx.filterMap fun q => (parentOf rs q.2).map fun p => (q.2, p) := by
    unfold matchedPairs
    rw [List.range_eq_range', ← List.zipIdx_map_snd 0 rs, List.filterMap_map]
    rfl
  rw [hzip, hpairs, List.map_filterMap, List.map_filterMap]
  refine List.filterMap_congr fun q hq => ?_
  have hr : rs[q.2]? = some q.1 := List.mk_mem_zipIdx_iff_getElem?.mp hq
  have hat : intervalAt rs q.2 = q.1.interval := getD_map_of_getElem? hr _
  unfold parentOf
  rw [hr, Option.bind_some]
  by_cases hroot : q.1.parentSpanId = 0
  · rw [if_pos hroot, if_pos hroot]
    rfl
  · rw [if_neg hroot, if_neg hroot, ← lastPosition_bind hkeys]
    cases hp : lastPosition (fun p => p.key = (q.1.traceId, q.1.parentSpanId)) rs with
    | none => rfl
    | some p =>
      obtain ⟨⟨r, hrp, -⟩, -⟩ := lastPosition_eq_some_iff.mp hp
      have hatp : intervalAt rs p = r.interval := getD_map_of_getElem? hrp _
      simp only [Option.map_some, Option.bind_some, hrp, hat, hatp]

theorem pairRecords_perm {rs rs' : List SampleRecord} (hperm : rs'.Perm rs) (hkeys : (rs.map SampleRecord.key).Nodup) :
    (pairRecords rs').Perm (pairRecords rs) := by
  unfold pairRecords
  simp only [find?_key_perm hperm hkeys]
  exact hperm.filterMap _

theorem mem_pairRecords (hkeys : (rs.map SampleRecord.key).Nodup) {r q : SampleRecord} :
    (r, q) ∈ pairRecords rs ↔ ∃ e ∈ matchedPairs rs, rs[e.1]? = some r ∧ rs[e.2]? = some q := by
  unfold pairRecords
  rw [List.mem_filterMap]
  constructor
  · rintro ⟨r', hr', h⟩
    split at h
    · cases h
    · rename_i hroot
      obtain ⟨q', hq', he⟩ := Option.map_eq_some_iff.mp h
      obtain ⟨rfl, rfl⟩ := Prod.mk.inj he
      obtain ⟨i, hi⟩ := List.mem_iff_getElem?.mp hr'
      rw [← lastPosition_bind hkeys] at hq'
      obtain ⟨p, hp, hqp⟩ := Option.bind_eq_some_iff.mp hq'
      refine ⟨(i, p), mem_matchedPairs.mpr ?_, hi, hqp⟩
      unfold parentOf
      rw [hi, Option.bind_some, if_neg hroot]
      exact hp
  · rintro ⟨⟨i, p⟩, he, hi, hp⟩
    refine ⟨r, List.mem_of_getElem? hi, ?_⟩
    have hparent := mem_matchedPairs.mp he
    unfold parentOf at hparent
    rw [hi, Option.bind_some] at hparent
    split at hparent
    · cases hparent
    · rename_i hroot
      rw [if_neg hroot, ← lastPosition_bind hkeys, hparent, Option.bind_some, hp]
      rfl

/-- What the children cover of a span, from the records. -/
noncomputable def childTimeOf (pairs : List (SampleRecord × SampleRecord)) (q : SampleRecord) : Finset ℤ :=
  (pairs.filter fun e => e.2 = q).toFinset.biUnion fun e => points e.1.interval ∩ points q.interval

theorem childTime_eq (hkeys : (rs.map SampleRecord.key).Nodup) {p : ℕ} {q : SampleRecord} (hq : rs[p]? = some q) :
    childTime rs p = childTimeOf (pairRecords rs) q := by
  have hatp : intervalAt rs p = q.interval := getD_map_of_getElem? hq _
  ext x
  simp only [childTime, childTimeOf, Finset.mem_biUnion, List.mem_toFinset, List.mem_filter, decide_eq_true_eq]
  constructor
  · rintro ⟨e, ⟨he, rfl⟩, hx⟩
    obtain ⟨r, q', hr, hq', -⟩ := records_of_parentOf (mem_matchedPairs.mp he)
    have hat : intervalAt rs e.1 = r.interval := getD_map_of_getElem? hr _
    rw [hat, hatp] at hx
    exact ⟨(r, q), ⟨(mem_pairRecords hkeys).mpr ⟨e, he, hr, hq⟩, rfl⟩, hx⟩
  · rintro ⟨⟨r, q'⟩, ⟨he, rfl⟩, hx⟩
    obtain ⟨e, hpair, hr, hq'⟩ := (mem_pairRecords hkeys).mp he
    have hat : intervalAt rs e.1 = r.interval := getD_map_of_getElem? hr _
    have hpos : p = e.2 := (List.getElem?_inj (List.getElem?_eq_some_iff.mp hq).1 (List.Nodup.of_map _ hkeys)).mp
      (hq.trans hq'.symm)
    refine ⟨e, ⟨hpair, hpos.symm⟩, ?_⟩
    rw [hat, hatp]
    exact hx

theorem selfTimeOf_eq (hkeys : (rs.map SampleRecord.key).Nodup) :
    selfTimeOf rs = (rs.map fun q => intervalLen q.interval - (childTimeOf (pairRecords rs) q).card).sum := by
  unfold selfTimeOf
  rw [List.range_eq_range', ← List.zipIdx_map_snd 0 rs, List.map_map]
  conv_rhs => rw [← List.zipIdx_map_fst 0 rs, List.map_map, List.zipIdx_map_fst 0 rs]
  congr 1
  refine List.map_congr_left fun q hq => ?_
  have hr : rs[q.2]? = some q.1 := List.mk_mem_zipIdx_iff_getElem?.mp hq
  have hat : intervalAt rs q.2 = q.1.interval := getD_map_of_getElem? hr _
  simp only [Function.comp]
  rw [childTime_eq hkeys hr, hat]

/-- **Where a span id names one span of a trace, the order of arrival does not
matter** to what self time is. -/
theorem selfTimeOf_perm {rs rs' : List SampleRecord} (hperm : rs'.Perm rs) (hkeys : (rs.map SampleRecord.key).Nodup) :
    selfTimeOf rs' = selfTimeOf rs ∧ clippedAwayOf rs' = clippedAwayOf rs ∧
      clippedChildrenOf rs' = clippedChildrenOf rs := by
  have hkeys' : (rs'.map SampleRecord.key).Nodup := (hperm.map _).nodup_iff.mpr hkeys
  have hpairs := pairRecords_perm hperm hkeys
  refine ⟨?_, ?_, ?_⟩
  · have hchild : ∀ q, childTimeOf (pairRecords rs') q = childTimeOf (pairRecords rs) q := by
      intro q
      unfold childTimeOf
      rw [List.toFinset_eq_of_perm _ _ (hpairs.filter _)]
    rw [selfTimeOf_eq hkeys', selfTimeOf_eq hkeys]
    simp only [hchild]
    exact (hperm.map _).sum_eq
  · unfold clippedAwayOf
    rw [map_matchedPairs hkeys' fun a b => intervalLen a - ((points a ∩ points b).card : ℤ),
      map_matchedPairs hkeys fun a b => intervalLen a - ((points a ∩ points b).card : ℤ)]
    exact (hpairs.map _).sum_eq
  · have hcount : ∀ {ss : List SampleRecord}, (ss.map SampleRecord.key).Nodup → clippedChildrenOf ss =
        (((pairRecords ss).map fun q => decide (¬ points q.1.interval ⊆ points q.2.interval)).filter id).length := by
      intro ss hss
      rw [← map_matchedPairs hss fun a b => decide (¬ points a ⊆ points b), List.filter_map, List.length_map]
      rfl
    rw [hcount hkeys', hcount hkeys]
    exact ((hpairs.map _).filter _).length_eq

/-! ### What is reported -/

/-- The view reports the self time of the spans `rs`, and their clipping. -/
def ReportsSelfTime {F : Type} (nsToMs : ℤ → F) (rs : List SampleRecord) (v : ProfileSampled F) : Prop :=
  v.selfMs = (if (matchedPairs rs).length = 0 then none else some (nsToMs (selfTimeOf rs))) ∧
    v.overlappingChildMs = nsToMs (clippedAwayOf rs) ∧ v.overlappingChildSpans = clippedChildrenOf rs

theorem sampledView_selfTime {F : Type} (nsToMs : ℤ → F) (samples : SampleSnapshot) (cutNs : Option ℤ) :
    let cols := Columns.of true (retained samples cutNs)
    let self := selfTime (sortIntervals cols.intervals) cols.parents cols.traces cols.byId cols.durations
    (sampledView nsToMs samples cutNs true).1.selfMs =
        (if self.nestedMatches = 0 then none else some (nsToMs self.selfNs)) ∧
      (sampledView nsToMs samples cutNs true).1.overlappingChildMs = nsToMs self.clippedAwayNs ∧
      (sampledView nsToMs samples cutNs true).1.overlappingChildSpans = self.clippedSpans := by
  intro cols self
  unfold sampledView
  simp only [Bool.not_true, Bool.false_eq_true, if_false]
  by_cases h : self.nestedMatches = 0
  · rw [if_pos h, if_pos h]
    exact ⟨rfl, rfl, rfl⟩
  · rw [if_neg h, if_neg h]
    exact ⟨rfl, rfl, rfl⟩

theorem reportsSelfTime_perm {F : Type} {nsToMs : ℤ → F} {rs rs' : List SampleRecord} (hperm : rs'.Perm rs)
    (hkeys : (rs.map SampleRecord.key).Nodup) (v : ProfileSampled F) :
    ReportsSelfTime nsToMs rs' v ↔ ReportsSelfTime nsToMs rs v := by
  have hkeys' : (rs'.map SampleRecord.key).Nodup := (hperm.map _).nodup_iff.mpr hkeys
  have hlen : ∀ {ss : List SampleRecord}, (ss.map SampleRecord.key).Nodup →
      (matchedPairs ss).length = (pairRecords ss).length := by
    intro ss hss
    have := congrArg List.length (map_matchedPairs hss fun _ _ => ())
    simpa using this
  obtain ⟨hself, haway, hchildren⟩ := selfTimeOf_perm hperm hkeys
  unfold ReportsSelfTime
  rw [hself, haway, hchildren, hlen hkeys', hlen hkeys, (pairRecords_perm hperm hkeys).length_eq]

/-- Parents that always come with a smaller measure go in no circle. -/
theorem acyclic_of_lt (f : ℕ → ℕ) (h : ∀ e ∈ matchedPairs rs, f e.2 < f e.1) : Acyclic rs := by
  have hlt : ∀ i j, Relation.TransGen (fun a b => parentOf rs a = some b) i j → f j < f i := by
    intro i j hij
    induction hij with
    | single hp => exact h (_, _) (mem_matchedPairs.mpr hp)
    | tail _ hp ih => exact (h (_, _) (mem_matchedPairs.mpr hp)).trans ih
  exact fun i hi => absurd (hlt i i hi) (lt_irrefl _)

/-- **Where every matched child and its parent stand where their intervals
sort to, the report is right, if no matched child is without duration**, and
only then. With distinct ids it is the same report for every order of the
spans. -/
theorem reports_self_time_iff {F : Type} (nsToMs : ℤ → F) (samples : SampleSnapshot) (cutNs : Option ℤ)
    (hwf : ∀ r ∈ retained samples cutNs, r.startNs ≤ r.endNs) (hacyclic : Acyclic (retained samples cutNs))
    (hplace : InPlace (retained samples cutNs)) (hzero : NoZeroChild (retained samples cutNs)) :
    (ReportsSelfTime nsToMs (retained samples cutNs) (sampledView nsToMs samples cutNs true).1 ↔
        ∀ e ∈ matchedPairs (retained samples cutNs),
          (intervalAt (retained samples cutNs) e.1).1 < (intervalAt (retained samples cutNs) e.1).2) ∧
      (((retained samples cutNs).map SampleRecord.key).Nodup → ∀ rs, rs.Perm (retained samples cutNs) → ∀ v,
        ReportsSelfTime nsToMs rs v ↔ ReportsSelfTime nsToMs (retained samples cutNs) v) := by
  refine ⟨?_, fun hkeys rs hperm => reportsSelfTime_perm hperm hkeys⟩
  obtain ⟨hself, haway, hspans⟩ := sampledView_selfTime nsToMs samples cutNs
  simp only [selfTime_eq hwf hacyclic hzero hplace] at hself haway hspans
  unfold ReportsSelfTime
  rw [hself, haway, hspans]
  simp only [true_and]
  have hempty : clippedChildrenOf (retained samples cutNs) + (emptyChildren (retained samples cutNs)).length =
      clippedChildrenOf (retained samples cutNs) ↔ emptyChildren (retained samples cutNs) = [] := by
    rw [← List.length_eq_zero_iff]
    omega
  rw [hempty, emptyChildren, List.filter_eq_nil_iff]
  refine forall₂_congr fun e _ => ?_
  have := intervalAt_le hwf e.1
  simp only [decide_eq_true_eq]
  omega

/-- A root and two children that overlap, in columns. -/
def threeSpans (spanId parentSpanId : List ℕ) (startNs endNs : List ℤ) : SampleSnapshot where
  level := .tree
  nGroupKeys := 0
  sealed := []
  active := ⟨startNs, endNs, [0, 0, 0], [0, 0, 0], spanId, parentSpanId, [7, 7, 7], []⟩
  complete := true

theorem reports_self_time_in_place :
    ReportsSelfTime id (retained (threeSpans [1, 2, 3] [0, 1, 1] [10, 20, 40] [110, 70, 100]) none)
      (sampledView id (threeSpans [1, 2, 3] [0, 1, 1] [10, 20, 40] [110, 70, 100]) none true).1 :=
  (reports_self_time_iff id (threeSpans [1, 2, 3] [0, 1, 1] [10, 20, 40] [110, 70, 100]) none
    (by decide +kernel) (acyclic_of_lt id (by decide +kernel)) (by unfold InPlace; decide +kernel)
    (by unfold NoZeroChild; decide +kernel)).1.mpr (by decide +kernel)

/-- The same spans with the root last, the order in which they end: the
intervals of the root and of a child change places. -/
theorem self_time_of_late_parent :
    (∀ r ∈ retained (threeSpans [2, 3, 1] [1, 1, 0] [10, 40, 10] [70, 100, 110]) none, r.startNs ≤ r.endNs) ∧
      Acyclic (retained (threeSpans [2, 3, 1] [1, 1, 0] [10, 40, 10] [70, 100, 110]) none) ∧
      selfTimeOf (retained (threeSpans [2, 3, 1] [1, 1, 0] [10, 40, 10] [70, 100, 110]) none) = 130 ∧
      (sampledView id (threeSpans [2, 3, 1] [1, 1, 0] [10, 40, 10] [70, 100, 110]) none true).1.selfMs = some 160 ∧
      ¬ ReportsSelfTime id (retained (threeSpans [2, 3, 1] [1, 1, 0] [10, 40, 10] [70, 100, 110]) none)
        (sampledView id (threeSpans [2, 3, 1] [1, 1, 0] [10, 40, 10] [70, 100, 110]) none true).1 := by
  refine ⟨by decide +kernel, acyclic_of_lt (fun i => 2 - i) (by decide +kernel), by decide +kernel, by decide +kernel, ?_⟩
  unfold ReportsSelfTime
  decide +kernel

end Logmon
