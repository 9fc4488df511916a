/-
# Projecting the sample tier

`sampled_view`, `self_time` and `union_len` of `collector/project.rs`: what a
profile says of the retained spans. Nanoseconds are turned into milliseconds
by a parameter, and the other floating-point statistics (standard deviation,
percentiles, achieved concurrency), which read only the durations and their
sum, are left out.

The spans the tier retains have a duration that fits an `i64` (`classify`), so
the subtractions are those of the integers.

The columns are filled in order of arrival. `union_len` sorts the intervals it
measures in place, and `self_time` is called with that same vector after it.

Key definitions: `clipInterval`, `selfTime`, `Columns`, `retained`,
`sampledView`.
-/
import Logmon.Collector.Sample
import Logmon.Lib.FMap
import Logmon.Lib.Intervals

namespace Logmon

open Lib

/-! ### Self time -/

/-- `Interval::len`. -/
def intervalLen (i : ℤ × ℤ) : ℤ := i.2 - i.1

/-- `Interval::clip`: the interval confined to `bounds`, or nothing when they
do not overlap. -/
def clipInterval (i bounds : ℤ × ℤ) : Option (ℤ × ℤ) :=
  if max i.1 bounds.1 < min i.2 bounds.2 then some (max i.1 bounds.1, min i.2 bounds.2) else none

structure SelfTime where
  selfNs : ℤ
  nestedMatches : ℕ
  /-- Child time that fell outside its parent and was clipped away. -/
  clippedAwayNs : ℤ
  clippedSpans : ℕ

/-- What the loop over the spans has gathered: the clipped children of each
parent, by its index, and the counts. -/
structure ChildScan where
  children : FMap ℕ (List (ℤ × ℤ))
  nestedMatches : ℕ
  clippedAwayNs : ℤ
  clippedSpans : ℕ

section
variable (intervals : List (ℤ × ℤ)) (parents traces : List ℕ) (byId : FMap (ℕ × ℕ) ℕ)

/-- A span whose parent is the span at `p`. -/
def ChildScan.addChild (acc : ChildScan) (i p : ℕ) : ChildScan :=
  let child := intervals.getD i (0, 0)
  match clipInterval child (intervals.getD p (0, 0)) with
  | some c =>
    let lost := intervalLen child - intervalLen c
    { children := acc.children.insert p ((acc.children.get? p).getD [] ++ [c])
      nestedMatches := acc.nestedMatches + 1
      clippedAwayNs := if lost > 0 then acc.clippedAwayNs + lost else acc.clippedAwayNs
      clippedSpans := if lost > 0 then acc.clippedSpans + 1 else acc.clippedSpans }
  | none =>
    { acc with
      nestedMatches := acc.nestedMatches + 1
      clippedAwayNs := acc.clippedAwayNs + intervalLen child
      clippedSpans := acc.clippedSpans + 1 }

/-- One turn of the loop: the span at `i`. A span that is its own parent, and a
pair that claim each other, are passed over. -/
def ChildScan.turn (acc : ChildScan) (i parentId trace : ℕ) : ChildScan :=
  if parentId = 0 then acc
  else
    match byId.get? (trace, parentId) with
    | none => acc
    | some p =>
      if p = i ∨ byId.get? (traces.getD p 0, parents.getD p 0) = some i then acc else acc.addChild intervals i p

def scanChildren : ChildScan :=
  (parents.zip traces).zipIdx.foldl (fun acc q => acc.turn intervals parents traces byId q.2 q.1.1 q.1.2)
    ⟨∅, 0, 0, 0⟩

/-- `self_time`: each duration less the union of the span's clipped children. -/
def selfTime (durations : List ℤ) : SelfTime :=
  let acc := scanChildren intervals parents traces byId
  { selfNs := (durations.zipIdx.map fun q =>
      max (q.1 - match acc.children.get? q.2 with | none => 0 | some cs => unionLen cs) 0).sum
    nestedMatches := acc.nestedMatches
    clippedAwayNs := acc.clippedAwayNs
    clippedSpans := acc.clippedSpans }

end

/-! ### The view -/

/-- The vectors of `sampled_view`, indexed by arrival. -/
structure Columns where
  durations : List ℤ
  intervals : List (ℤ × ℤ)
  /-- The index of a span by its trace and id; a later one takes its place. -/
  byId : FMap (ℕ × ℕ) ℕ
  parents : List ℕ
  traces : List ℕ

def Columns.add (tree : Bool) (cols : Columns) (r : SampleRecord) : Columns where
  durations := cols.durations ++ [r.endNs - r.startNs]
  intervals := cols.intervals ++ [(r.startNs, r.endNs)]
  byId := if tree then cols.byId.insert (r.traceId, r.spanId) cols.durations.length else cols.byId
  parents := if tree then cols.parents ++ [r.parentSpanId] else cols.parents
  traces := if tree then cols.traces ++ [r.traceId] else cols.traces

/-- The records from the warm-up cut on. -/
def retained (samples : SampleSnapshot) (cutNs : Option ℤ) : List SampleRecord :=
  samples.records.filter fun r => !cutNs.any fun c => r.startNs < c

def Columns.of (tree : Bool) (rs : List SampleRecord) : Columns := rs.foldl (Columns.add tree) ⟨[], [], ∅, [], []⟩

structure Suppressed where
  field : String
  reason : String
  remedy : Option String
  deriving DecidableEq

/-- `MAX_INLINE_DURATIONS`. -/
def maxInlineDurations : ℕ := 50

/-- `ProfileSampled`, less its floating-point statistics. -/
structure ProfileSampled (F : Type) where
  complete : Bool
  sampleCount : ℕ
  durationsMs : Option (List F)
  selfMs : Option F
  nestedMatches : ℕ
  overlappingChildMs : F
  overlappingChildSpans : ℕ
  wallUnionMs : Option F

/-- Why the durations themselves are not listed, if they are not. -/
def durationsSuppressed (complete : Bool) (sampleCount : ℕ) : Option Suppressed :=
  if !complete then
    some ⟨"sampled.durations_ms",
      "the sample budget stopped retention, so these records are a contiguous prefix of the run rather than all of it " ++
      "— listing them would invite per-value reasoning a biased subset cannot support",
      some "raise max_sample_bytes, or narrow the filter"⟩
  else if sampleCount > maxInlineDurations then
    some ⟨"sampled.durations_ms",
      toString sampleCount ++ " retained records is above the " ++ toString maxInlineDurations ++ "-record inline cap",
      some "read the percentiles and stddev_ms, which describe the whole retained set"⟩
  else none

/-- `sampled_view`: the view, and what it says it left out. -/
def sampledView {F : Type} (nsToMs : ℤ → F) (samples : SampleSnapshot) (cutNs : Option ℤ) (tree : Bool) :
    ProfileSampled F × List Suppressed :=
  let cols := Columns.of tree (retained samples cutNs)
  let sampleCount := cols.durations.length
  let wallUnionNs := unionLen cols.intervals
  -- `union_len` has sorted the vector it was given
  let intervals := sortIntervals cols.intervals
  let left := durationsSuppressed samples.complete sampleCount
  let out : ProfileSampled F :=
    { complete := samples.complete
      sampleCount
      durationsMs := if left.isSome then none else some (cols.durations.map nsToMs)
      selfMs := none
      nestedMatches := 0
      overlappingChildMs := nsToMs 0
      overlappingChildSpans := 0
      wallUnionMs := if sampleCount > 0 then some (nsToMs wallUnionNs) else none }
  if !tree then
    (out, left.toList ++ [⟨"sampled.self_ms",
      "level \x60timing\x60 retains no parent identity, so children cannot be attributed",
      some "define the collector at level \x60tree\x60"⟩])
  else
    let self := selfTime intervals cols.parents cols.traces cols.byId cols.durations
    let out :=
      { out with
        nestedMatches := self.nestedMatches
        overlappingChildMs := nsToMs self.clippedAwayNs
        overlappingChildSpans := self.clippedSpans }
    if self.nestedMatches = 0 then
      (out, left.toList ++ [⟨"sampled.self_ms",
        "no matched span has a matched parent, so self time would equal total time by construction",
        some "broaden the filter so nested spans are matched too"⟩])
    else ({ out with selfMs := some (nsToMs self.selfNs) }, left.toList)

end Logmon
