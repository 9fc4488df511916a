/-
# Merging statistics

`ExactStats::merge` of `collector/exact.rs` as it runs, on the receiver in
place: the sketches first, and only when those merged the counters. The
counters of a row are a commutative monoid that every observation adds to, so
recording two lists into one row or into two that are merged, either into the
other, comes to the same counters; and a refused merge has touched nothing.

Key definitions: `ExactStats.mergeMut`, `MergesInPlace`, `Scalars`,
`Scalars.ofObservation`, `recordAll`.
Key theorems: `scalars_recordAll`, `mergeMut_eq`, `merge_is_homomorphism`.
-/
import Logmon.Collector.Arms
import Mathlib.Algebra.BigOperators.Group.List.Basic

namespace Logmon

/-! ### The counters -/

/-- The counters of a row, without its sketch. -/
@[ext] structure Scalars where
  count : ℕ
  totalNs : ℤ
  minNs : Option ℤ
  maxNs : Option ℤ
  errorCount : ℕ
  negativeDurationSpans : ℕ
  malformedTimestamps : ℕ
  outOfRangeSpans : ℕ
  deriving DecidableEq

/-- One recorded observation. -/
abbrev Observation := SpanDuration × Bool

theorem minNsOf_assoc (a b c : Option ℤ) : minNsOf (minNsOf a b) c = minNsOf a (minNsOf b c) := by
  cases a <;> cases b <;> cases c <;> simp [minNsOf, min_assoc]

theorem minNsOf_comm (a b : Option ℤ) : minNsOf a b = minNsOf b a := by
  cases a <;> cases b <;> simp [minNsOf, min_comm]

theorem maxNsOf_assoc (a b c : Option ℤ) : maxNsOf (maxNsOf a b) c = maxNsOf a (maxNsOf b c) := by
  cases a <;> cases b <;> cases c <;> simp [maxNsOf, max_assoc]

theorem maxNsOf_comm (a b : Option ℤ) : maxNsOf a b = maxNsOf b a := by
  cases a <;> cases b <;> simp [maxNsOf, max_comm]

namespace Scalars

instance : Zero Scalars := ⟨⟨0, 0, none, none, 0, 0, 0, 0⟩⟩

instance : Add Scalars :=
  ⟨fun a b => ⟨a.count + b.count, a.totalNs + b.totalNs, minNsOf a.minNs b.minNs, maxNsOf a.maxNs b.maxNs,
    a.errorCount + b.errorCount, a.negativeDurationSpans + b.negativeDurationSpans,
    a.malformedTimestamps + b.malformedTimestamps, a.outOfRangeSpans + b.outOfRangeSpans⟩⟩

theorem zero_def : (0 : Scalars) = ⟨0, 0, none, none, 0, 0, 0, 0⟩ := rfl

theorem add_def (a b : Scalars) :
    a + b = ⟨a.count + b.count, a.totalNs + b.totalNs, minNsOf a.minNs b.minNs, maxNsOf a.maxNs b.maxNs,
      a.errorCount + b.errorCount, a.negativeDurationSpans + b.negativeDurationSpans,
      a.malformedTimestamps + b.malformedTimestamps, a.outOfRangeSpans + b.outOfRangeSpans⟩ := rfl

instance : AddCommMonoid Scalars where
  add_assoc a b c := by ext1 <;> simp [add_def, add_assoc, minNsOf_assoc, maxNsOf_assoc]
  zero_add a := by ext1 <;> simp [add_def, zero_def, minNsOf, maxNsOf]
  add_zero a := by
    ext1 <;> simp only [add_def, zero_def, Nat.add_zero, Int.add_zero]
    · cases a.minNs <;> rfl
    · cases a.maxNs <;> rfl
  add_comm a b := by ext1 <;> simp [add_def, add_comm, minNsOf_comm, maxNsOf_comm]
  nsmul := nsmulRec

/-- What one observation counts for. -/
def ofObservation (o : Observation) : Scalars where
  count := 1
  totalNs := match o.1 with
    | .ok ns => ns
    | _ => 0
  minNs := match o.1 with
    | .ok ns => some ns
    | _ => none
  maxNs := match o.1 with
    | .ok ns => some ns
    | _ => none
  errorCount := if o.2 then 1 else 0
  negativeDurationSpans := match o.1 with
    | .negative _ => 1
    | _ => 0
  malformedTimestamps := match o.1 with
    | .malformed => 1
    | _ => 0
  outOfRangeSpans := match o.1 with
    | .ok ns => if sketchMaxNs < ns then 1 else 0
    | _ => 0

end Scalars

variable {S D : Type}

/-- What the sketch says of a value does not depend on the sketch. -/
theorem SketchOps.clamped_iff (ops : SketchOps S) (sketch : S) (ns : ℤ) :
    (ops.record sketch ns).2 = .clamped ↔ sketchMaxNs < ns := by
  unfold record
  have hmin : sketchMinNs = 1 := rfl
  have hmax : sketchMaxNs = 3600000000000 := rfl
  split_ifs
  · exact iff_of_false (by simp) (by omega)
  · exact iff_of_false (by simp) (by omega)
  · exact iff_of_true rfl (by omega)
  · exact iff_of_false (by simp) (by omega)

namespace ExactStats

def scalars (s : ExactStats S) : Scalars :=
  ⟨s.count, s.totalNs, s.minNs, s.maxNs, s.errorCount, s.negativeDurationSpans, s.malformedTimestamps, s.outOfRangeSpans⟩

/-- One observation adds what it counts for. -/
theorem scalars_record (ops : SketchOps S) (o : Observation) (s : ExactStats S) :
    (s.record ops o.1 o.2).scalars = s.scalars + .ofObservation o := by
  obtain ⟨d, isError⟩ := o
  rw [Scalars.add_def]
  cases d with
  | ok ns =>
    unfold record scalars Scalars.ofObservation
    simp only [ops.clamped_iff]
    ext1
    · rfl
    · rfl
    · cases s.minNs <;> rfl
    · cases s.maxNs <;> rfl
    · cases isError <;> rfl
    · rfl
    · rfl
    · by_cases hns : sketchMaxNs < ns <;> simp [hns]
  | negative ns => cases isError <;> cases hmin : s.minNs <;> cases hmax : s.maxNs <;>
      simp [record, scalars, Scalars.ofObservation, minNsOf, maxNsOf, hmin, hmax]
  | malformed => cases isError <;> cases hmin : s.minNs <;> cases hmax : s.maxNs <;>
      simp [record, scalars, Scalars.ofObservation, minNsOf, maxNsOf, hmin, hmax]

/-- Observations recorded in order. -/
def recordAll (ops : SketchOps S) (s : ExactStats S) (os : List Observation) : ExactStats S :=
  os.foldl (fun s o => s.record ops o.1 o.2) s

theorem scalars_recordAll (ops : SketchOps S) (os : List Observation) : ∀ s : ExactStats S,
    (s.recordAll ops os).scalars = s.scalars + (os.map Scalars.ofObservation).sum := by
  induction os with
  | nil => exact fun s => (add_zero s.scalars).symm
  | cons o os ih =>
    intro s
    show ((s.record ops o.1 o.2).recordAll ops os).scalars = _
    rw [ih, scalars_record, List.map_cons, List.sum_cons, add_assoc]

end ExactStats

/-! ### Merging in place -/

/-- What two sketches that do not merge say of each other. -/
structure LayoutMismatch where
  theirs : SketchLayout
  ours : SketchLayout
  deriving DecidableEq

/-- `DurationSketch::merge`; `inner` is the crate's merge, which leaves a
receiver and says whether it succeeded. -/
def DurationSketch.mergeMut (inner : D → D → D × Bool) (a b : DurationSketch D) :
    DurationSketch D × Except LayoutMismatch Unit :=
  if a.layout ≠ b.layout then (a, .error ⟨b.layout, a.layout⟩)
  else ({ a with inner := (inner a.inner b.inner).1 },
    if (inner a.inner b.inner).2 then .ok () else .error ⟨b.layout, a.layout⟩)

/-- `ExactStats::merge`, field after field. -/
def ExactStats.mergeMut (inner : D → D → D × Bool) (a b : RowStats D) : RowStats D × Except LayoutMismatch Unit :=
  match a.sketch.mergeMut inner b.sketch with
  | (sketch, .error e) => ({ a with sketch }, .error e)
  | (sketch, .ok ()) =>
    ({ sketch
       count := a.count + b.count
       totalNs := a.totalNs + b.totalNs
       errorCount := a.errorCount + b.errorCount
       negativeDurationSpans := a.negativeDurationSpans + b.negativeDurationSpans
       malformedTimestamps := a.malformedTimestamps + b.malformedTimestamps
       outOfRangeSpans := a.outOfRangeSpans + b.outOfRangeSpans
       minNs := minNsOf a.minNs b.minNs
       maxNs := maxNsOf a.maxNs b.maxNs }, .ok ())

/-- The crate's merge is all or nothing: it succeeds where the sketches merge,
and leaves the receiver where they do not. -/
def MergesInPlace (dd : DDSketchOps D) (inner : D → D → D × Bool) : Prop :=
  ∀ a b, inner a b = match dd.merge a b with
    | some c => (c, true)
    | none => (a, false)

variable {dd : DDSketchOps D} {inner : D → D → D × Bool}

theorem DurationSketch.mergeMut_eq (h : MergesInPlace dd inner) (a b : DurationSketch D) :
    a.mergeMut inner b = match a.merge dd b with
      | some c => (c, .ok ())
      | none => (a, .error ⟨b.layout, a.layout⟩) := by
  unfold mergeMut merge
  split
  · rfl
  · rw [h]
    cases dd.merge a.inner b.inner <;> rfl

/-- **The merge in place is the merge**: it becomes the sum, or refuses and
leaves the receiver. -/
theorem ExactStats.mergeMut_eq (h : MergesInPlace dd inner) (a b : RowStats D) :
    a.mergeMut inner b = match a.merge dd b with
      | some c => (c, .ok ())
      | none => (a, .error ⟨b.sketch.layout, a.sketch.layout⟩) := by
  unfold mergeMut merge
  rw [DurationSketch.mergeMut_eq h]
  cases a.sketch.merge dd b.sketch <;> rfl

theorem ExactStats.scalars_merge {a b c : RowStats D} (h : a.merge dd b = some c) : c.scalars = a.scalars + b.scalars := by
  obtain ⟨sketch, -, rfl⟩ := Option.map_eq_some_iff.mp h
  rfl

theorem ExactStats.current_record {s : RowStats D} (hs : s.sketch.Current dd) (o : Observation) :
    (s.record (DurationSketch.ops dd) o.1 o.2).sketch.Current dd := by
  obtain ⟨d, isError⟩ := o
  cases d with
  | ok ns => exact DurationSketch.current_record hs ns
  | negative => exact hs
  | malformed => exact hs

theorem ExactStats.current_recordAll (os : List Observation) : ∀ {s : RowStats D}, s.sketch.Current dd →
    (s.recordAll (DurationSketch.ops dd) os).sketch.Current dd := by
  induction os with
  | nil => exact fun hs => hs
  | cons o os ih => exact fun hs => ih (current_record hs o)

/-- Rows of this build merge, to the sum of their counters. -/
theorem ExactStats.mergeMut_current (h : MergesInPlace dd inner) {a b : RowStats D} (ha : a.sketch.Current dd)
    (hb : b.sketch.Current dd) : (a.mergeMut inner b).2 = .ok () ∧ (a.mergeMut inner b).1.scalars = a.scalars + b.scalars := by
  obtain ⟨c, hc, -⟩ := merge_current ha hb
  rw [mergeMut_eq h, hc]
  exact ⟨rfl, scalars_merge hc⟩

/-- A row with some observations recorded. -/
def recorded (dd : DDSketchOps D) (os : List Observation) : RowStats D :=
  (ExactStats.new (DurationSketch.ops dd)).recordAll (DurationSketch.ops dd) os

/-- **Merging is a homomorphism**: two lists recorded into one row, or into two
merged either way, count the same; and a merge that is refused leaves the
receiver as it was. -/
theorem merge_is_homomorphism (dd : DDSketchOps D) (inner : D → D → D × Bool) (h : MergesInPlace dd inner) :
    (∀ xs ys : List Observation,
      ((recorded dd xs).mergeMut inner (recorded dd ys)).2 = .ok () ∧
      ((recorded dd xs).mergeMut inner (recorded dd ys)).1.scalars = (recorded dd (xs ++ ys)).scalars ∧
      ((recorded dd ys).mergeMut inner (recorded dd xs)).2 = .ok () ∧
      ((recorded dd ys).mergeMut inner (recorded dd xs)).1.scalars = (recorded dd (xs ++ ys)).scalars) ∧
    ∀ (a b : RowStats D) (e : LayoutMismatch), (a.mergeMut inner b).2 = .error e → (a.mergeMut inner b).1 = a := by
  have hcurrent : ∀ os, (recorded dd os).sketch.Current dd := fun os =>
    ExactStats.current_recordAll os (DurationSketch.current_new dd)
  have hscalars : ∀ os, (recorded dd os).scalars = (os.map Scalars.ofObservation).sum := by
    intro os
    have hnew : (ExactStats.new (DurationSketch.ops dd)).scalars = 0 := rfl
    rw [recorded, ExactStats.scalars_recordAll, hnew, zero_add]
  refine ⟨fun xs ys => ?_, fun a b e he => ?_⟩
  · obtain ⟨hok, hsum⟩ := ExactStats.mergeMut_current h (hcurrent xs) (hcurrent ys)
    obtain ⟨hok', hsum'⟩ := ExactStats.mergeMut_current h (hcurrent ys) (hcurrent xs)
    have hboth : (recorded dd (xs ++ ys)).scalars = (recorded dd xs).scalars + (recorded dd ys).scalars := by
      rw [hscalars, hscalars, hscalars, List.map_append, List.sum_append]
    exact ⟨hok, by rw [hsum, hboth], hok', by rw [hsum', hboth, add_comm]⟩
  · rw [ExactStats.mergeMut_eq h] at he ⊢
    cases hmerge : a.merge dd b with
    | some c =>
      rw [hmerge] at he
      simp at he
    | none => rfl

/-- A sketch as the multiset of what was added to it, in one configuration. -/
def bagOps : DDSketchOps (List ℤ) where
  new := []
  add bag ns := ns :: bag
  merge a b := some (b ++ a)
  Configured _ := True
  configured_new := trivial
  configured_add _ _ _ := trivial
  merge_configured a b _ _ := ⟨b ++ a, rfl, trivial⟩

theorem merge_is_homomorphism_bag :
    ((recorded bagOps [(.ok 5, false), (.malformed, true)]).mergeMut (fun a b => (b ++ a, true))
        (recorded bagOps [(.ok 3, true), (.negative (-2), false)])).1.scalars = ⟨4, 8, some 3, some 5, 2, 1, 1, 0⟩ :=
  ((merge_is_homomorphism bagOps (fun a b => (b ++ a, true)) fun _ _ => rfl).1 _ _).2.1

end Logmon
