/-
# The arms of a comparison

`collector/diff.rs`: an arm is a collector's live window, one recorded run, or
several runs merged. Its breakdowns are keyed by resolved labels, since ids of
two runs mean different names. Rows are counted by id, and two ids, or two
tuples of them, can have one label: a value may hold the ` / ` tuples are
joined with, or be one of the reserved labels.

A merged arm adds rows of one label (`mergeByLabel`); an arm over one window
collects them, and the last of them stays (`rowsByLabel`). So a merged arm always
adds up to its total, and an arm over one window does so exactly when no two
of its rows share a label (`arms_reconcile_iff`).

Key definitions: `DurationSketch`, `ExactStats.merge`, `groupLabel`,
`RecordedRun`, `Arm`, `Arm.fromLive`, `Arm.fromSnapshot`, `Arm.merged`,
`LabelsDistinct`, `Arm.Reconciles`.
Key theorems: `LiveView.Shown.sound`, `sumRows_byLabel_iff`,
`reconciles_merged`, `arms_reconcile_iff`.
-/
import Logmon.Collector.Population
import Logmon.Collector.Rows

namespace Logmon

open Lib

/-! ### Sketches that merge -/

/-- The identity that travels with a sketch's buckets. Its `f64` parameters are
finite. -/
structure SketchLayout where
  algo : String
  alpha : ℚ
  unit : String
  minNs : ℚ
  maxNs : ℚ
  maxNumBins : ℕ
  deriving DecidableEq

def SketchLayout.current : SketchLayout where
  algo := "ddsketch"
  alpha := 1 / 100
  unit := "ns"
  minNs := 1
  maxNs := 3600000000000
  maxNumBins := 2048

/-- What the daemon uses of the sketch crate: a sketch of its configuration, a
value added, and a merge, which refuses a sketch of another configuration
only. -/
structure DDSketchOps (D : Type) where
  new : D
  add : D → ℤ → D
  merge : D → D → Option D
  /-- The sketch has this build's configuration. -/
  Configured : D → Prop
  configured_new : Configured new
  configured_add : ∀ d ns, Configured d → Configured (add d ns)
  merge_configured : ∀ a b, Configured a → Configured b → ∃ c, merge a b = some c ∧ Configured c

/-- A duration distribution with its recorded layout. -/
structure DurationSketch (D : Type) where
  inner : D
  layout : SketchLayout

variable {D : Type}

namespace DurationSketch

/-- The sketch as the counters use it. -/
def ops (dd : DDSketchOps D) : SketchOps (DurationSketch D) where
  new := ⟨dd.new, .current⟩
  add s ns := { s with inner := dd.add s.inner ns }

/-- `merge`: refused when the layouts differ. -/
def merge (dd : DDSketchOps D) (a b : DurationSketch D) : Option (DurationSketch D) :=
  if a.layout ≠ b.layout then none else (dd.merge a.inner b.inner).map fun inner => { a with inner }

/-- A sketch this build made. -/
def Current (dd : DDSketchOps D) (s : DurationSketch D) : Prop := s.layout = .current ∧ dd.Configured s.inner

theorem current_new (dd : DDSketchOps D) : Current dd (ops dd).new := ⟨rfl, dd.configured_new⟩

theorem current_record {dd : DDSketchOps D} {s : DurationSketch D} (h : s.Current dd) (ns : ℤ) :
    ((ops dd).record s ns).1.Current dd := by
  unfold SketchOps.record
  split_ifs
  · exact h
  · exact ⟨h.1, dd.configured_add _ _ h.2⟩
  · exact ⟨h.1, dd.configured_add _ _ h.2⟩
  · exact ⟨h.1, dd.configured_add _ _ h.2⟩

/-- Sketches of this build merge. -/
theorem merge_current {dd : DDSketchOps D} {a b : DurationSketch D} (ha : a.Current dd) (hb : b.Current dd) :
    ∃ c, merge dd a b = some c ∧ c.Current dd := by
  obtain ⟨c, hc, hconf⟩ := dd.merge_configured _ _ ha.2 hb.2
  refine ⟨⟨c, a.layout⟩, ?_, ha.1, hconf⟩
  unfold merge
  rw [if_neg (by rw [ha.1, hb.1]; exact fun h => h rfl), hc]
  rfl

end DurationSketch

/-- The exact tier over this build's sketches. -/
abbrev RowStats (D : Type) := ExactStats (DurationSketch D)

/-- The smaller of two optional extremes, or the one there is. -/
def minNsOf : Option ℤ → Option ℤ → Option ℤ
  | some a, some b => some (min a b)
  | a, b => a.or b

def maxNsOf : Option ℤ → Option ℤ → Option ℤ
  | some a, some b => some (max a b)
  | a, b => a.or b

/-- Additive merge; refused when the sketches do not merge. -/
def ExactStats.merge (dd : DDSketchOps D) (a b : RowStats D) : Option (RowStats D) :=
  (a.sketch.merge dd b.sketch).map fun sketch =>
    { sketch
      count := a.count + b.count
      totalNs := a.totalNs + b.totalNs
      errorCount := a.errorCount + b.errorCount
      negativeDurationSpans := a.negativeDurationSpans + b.negativeDurationSpans
      malformedTimestamps := a.malformedTimestamps + b.malformedTimestamps
      outOfRangeSpans := a.outOfRangeSpans + b.outOfRangeSpans
      minNs := minNsOf a.minNs b.minNs
      maxNs := maxNsOf a.maxNs b.maxNs }

theorem ExactStats.tally_merge {dd : DDSketchOps D} {a b c : RowStats D} (h : a.merge dd b = some c) :
    c.tally = a.tally + b.tally := by
  obtain ⟨sketch, -, rfl⟩ := Option.map_eq_some_iff.mp h
  rfl

theorem ExactStats.merge_current {dd : DDSketchOps D} {a b : RowStats D} (ha : a.sketch.Current dd)
    (hb : b.sketch.Current dd) : ∃ c, a.merge dd b = some c ∧ c.sketch.Current dd := by
  obtain ⟨sketch, hs, hcurrent⟩ := DurationSketch.merge_current ha hb
  exact ⟨_, by rw [merge, hs]; rfl, hcurrent⟩

/-! ### Labels -/

/-- `group_label`: a tuple's values, joined. A position without an interner is
an overflow. -/
def groupLabel (interners : List Interner) : List ℕ → String
  | [id] => (interners.head?.map (·.resolve id)).getD overflowLabel
  | ids => String.intercalate " / " (ids.zipIdx.map fun x => (interners[x.2]?.map (·.resolve x.1)).getD overflowLabel)

/-- The rows of a map under the labels of their ids. -/
def rowsByLabel {K : Type} (order : MapOrder) (label : K → String) (m : FMap K (RowStats D)) :
    List (String × RowStats D) :=
  (order.rows m).map fun r => (label r.1, r.2)

/-! ### Runs and arms -/

/-- `cardinality_capped`. -/
def LiveView.cardinalityCapped {S : Type} (v : LiveView S) : Bool :=
  v.names.capped || v.groupTuplesCapped || v.groupValues.any (·.capped)

def LiveView.windowStart {S : Type} (v : LiveView S) : ℤ :=
  match v.zeroedAt with
  | some z => if z > v.armedAt then z else v.armedAt
  | none => v.armedAt

/-- `StoredSnapshot`, with the breakdowns its policy kept. Projections, paths
and wall time are left out: no breakdown reads them. -/
structure RecordedRun (D : Type) where
  label : String
  description : Option String
  metaText : String
  takenAt : ℤ
  defn : CollectorDef
  policy : SnapshotPolicy
  windowStart : ℤ
  total : RowStats D
  perName : Option (FMap ℕ (RowStats D))
  perGroup : Option (FMap (List ℕ) (RowStats D))
  names : Interner
  groupValues : List Interner
  ingest : Option TraceIngestLoss
  sampleComplete : Bool
  cardinalityCapped : Bool

def RecordedRun.fromView (label : String) (description : Option String) (metaText : String) (takenAt : ℤ)
    (policy : SnapshotPolicy) (view : LiveView (DurationSketch D)) (ingest : Option TraceIngestLoss) : RecordedRun D where
  label
  description
  metaText
  takenAt
  defn := view.defn
  policy
  windowStart := view.windowStart
  total := view.total
  perName := if policy.perName then some view.perName else none
  perGroup := if policy.perGroup then some view.perGroup else none
  names := view.names
  groupValues := view.groupValues
  ingest
  sampleComplete := view.samples.complete
  cardinalityCapped := view.cardinalityCapped

/-- Which runs an arm covers. -/
inductive Aggregation
  | live
  | singleRun (label : String)
  | merged (labels : List String)
  deriving DecidableEq

/-- One side of a comparison. -/
structure Arm (D : Type) where
  spec : String
  collector : String
  aggregation : Aggregation
  defn : CollectorDef
  total : RowStats D
  perName : Option (FMap String (RowStats D))
  perGroup : Option (FMap String (RowStats D))
  ingest : Option TraceIngestLoss
  sampleComplete : Bool
  cardinalityCapped : Bool
  windowStart : Option ℤ
  takenAt : Option ℤ
  metaText : String
  description : Option String

inductive MergeError
  | empty
  | layoutMismatch (first offending : SketchLayout)
  | definitionMismatch (a b : String)
  deriving DecidableEq

namespace Arm

/-- An arm over a collector's still-open window. -/
def fromLive (order : MapOrder) (spec : String) (view : LiveView (DurationSketch D)) (ingest : Option TraceIngestLoss)
    (readAt : ℤ) : Arm D where
  spec
  collector := view.defn.name
  aggregation := .live
  defn := view.defn
  total := view.total
  perName := some (.ofRows (rowsByLabel order view.names.resolve view.perName))
  perGroup := some (.ofRows (rowsByLabel order (groupLabel view.groupValues) view.perGroup))
  ingest
  sampleComplete := view.samples.complete
  cardinalityCapped := view.cardinalityCapped
  windowStart := some view.windowStart
  takenAt := some readAt
  metaText := "null"
  description := view.defn.description

/-- An arm over one recorded run. -/
def fromSnapshot (order : MapOrder) (spec : String) (s : RecordedRun D) : Arm D where
  spec
  collector := s.defn.name
  aggregation := .singleRun s.label
  defn := s.defn
  total := s.total
  perName := s.perName.map fun m => .ofRows (rowsByLabel order s.names.resolve m)
  perGroup := s.perGroup.map fun m => .ofRows (rowsByLabel order (groupLabel s.groupValues) m)
  ingest := s.ingest
  sampleComplete := s.sampleComplete
  cardinalityCapped := s.cardinalityCapped
  windowStart := some s.windowStart
  takenAt := some s.takenAt
  metaText := s.metaText
  description := s.description

end Arm

/-- What merging uses of the rest: the canonical form of a filter, the `Debug`
text of group keys, and the sketch crate. -/
structure MergeEnv (D : Type) where
  canon : CanonEnv
  debugKeys : List String → String
  dd : DDSketchOps D

section Merge

variable (env : MergeEnv D)

/-- One row into a map of labels: added to the row of its label, which is
dropped when the two do not merge. -/
def mergeRow (out : FMap String (RowStats D)) (r : String × RowStats D) : FMap String (RowStats D) :=
  match out.get? r.1 with
  | none => out.insert r.1 r.2
  | some acc =>
    match acc.merge env.dd r.2 with
    | some sum => out.insert r.1 sum
    | none => out.erase r.1

/-- One axis across runs. -/
def mergeByLabel (extract : RecordedRun D → Option (List (String × RowStats D))) (runs : List (RecordedRun D)) :
    FMap String (RowStats D) :=
  (runs.flatMap fun s => (extract s).getD []).foldl (mergeRow env) ∅

/-- The loop of `merge` over the runs after the first. -/
def mergeRest (layout : SketchLayout) : RowStats D → List (RecordedRun D) → Except MergeError (RowStats D)
  | acc, [] => .ok acc
  | acc, s :: rest =>
    if s.total.sketch.layout ≠ layout then .error (.layoutMismatch layout s.total.sketch.layout)
    else
      match acc.merge env.dd s.total with
      | none => .error (.layoutMismatch layout s.total.sketch.layout)
      | some sum => mergeRest layout sum rest

/-- `history::merge`: the totals of the runs, combined. -/
def mergeTotals : List (RecordedRun D) → Except MergeError (RowStats D)
  | [] => .error .empty
  | first :: rest => mergeRest env first.total.sketch.layout first.total rest

/-- The two runs were recorded under different definitions. -/
def definitionDiffers (s last : RecordedRun D) : Bool :=
  canonicalFilter env.canon s.defn.filter != canonicalFilter env.canon last.defn.filter ||
    s.defn.level != last.defn.level || s.defn.groupKeys != last.defn.groupKeys

def describeDefinition (s : RecordedRun D) : String :=
  "\x60" ++ s.label ++ "\x60: filter \x60" ++ s.defn.filterString ++ "\x60, level \x60" ++ s.defn.level.asStr ++
    "\x60, group_keys " ++ env.debugKeys s.defn.groupKeys

/-- Loss is unknown where it was for any run. -/
def mergeIngest (runs : List (RecordedRun D)) : Option TraceIngestLoss :=
  runs.foldlM (fun acc s => s.ingest.map fun i =>
    ⟨satAdd acc.dropped i.dropped, satAdd acc.shedBatches i.shedBatches, satAdd acc.malformed i.malformed⟩) 0

/-- An arm over several recorded runs, combined. -/
def Arm.merged (order : MapOrder) (spec : String) (runs : List (RecordedRun D)) : Except MergeError (Arm D) :=
  match runs.getLast? with
  | none => .error .empty
  | some last =>
    match runs.find? fun s => definitionDiffers env s last with
    | some s => .error (.definitionMismatch (describeDefinition env s) (describeDefinition env last))
    | none =>
      match mergeTotals env runs with
      | .error e => .error e
      | .ok total => .ok
        { spec
          collector := last.defn.name
          aggregation := .merged (runs.map RecordedRun.label)
          defn := last.defn
          total
          perName :=
            if runs.all fun s => s.perName.isSome then
              some (mergeByLabel env (fun s => s.perName.map (rowsByLabel order s.names.resolve)) runs)
            else none
          perGroup :=
            if runs.all fun s => s.perGroup.isSome then
              some (mergeByLabel env (fun s => s.perGroup.map (rowsByLabel order (groupLabel s.groupValues))) runs)
            else none
          ingest := mergeIngest runs
          sampleComplete := runs.all RecordedRun.sampleComplete
          cardinalityCapped := runs.any RecordedRun.cardinalityCapped
          windowStart := runs.head?.map RecordedRun.windowStart
          takenAt := some last.takenAt
          metaText := last.metaText
          description := last.description }

end Merge

/-! ### The rows of a window -/

/-- A row as recording makes it: it counts a span, and its sketch is of this
build. -/
structure ExactStats.Made (dd : DDSketchOps D) (e : RowStats D) : Prop where
  counted : 0 < e.count
  current : e.sketch.Current dd

theorem ExactStats.made_record {dd : DDSketchOps D} {e : RowStats D} (h : e.sketch.Current dd) (d : SpanDuration)
    (isError : Bool) : (e.record (DurationSketch.ops dd) d isError).Made dd := by
  unfold record
  cases d with
  | ok ns => exact ⟨Nat.succ_pos _, DurationSketch.current_record h ns⟩
  | negative ns => exact ⟨Nat.succ_pos _, h⟩
  | malformed => exact ⟨Nat.succ_pos _, h⟩

/-- Every row of the map was recorded to. -/
def RowsMade {K : Type} (dd : DDSketchOps D) (m : FMap K (RowStats D)) : Prop := ∀ row ∈ m.entries, row.2.Made dd

theorem RowsMade.upsert {K : Type} [DecidableEq K] {dd : DDSketchOps D} {m : FMap K (RowStats D)} (h : RowsMade dd m)
    (k : K) (d : SpanDuration) (isError : Bool) :
    RowsMade dd (m.upsert k (.new (DurationSketch.ops dd)) (ExactStats.record (DurationSketch.ops dd) d isError)) := by
  intro row hrow
  rcases List.mem_cons.mp hrow with rfl | hrow
  · refine ExactStats.made_record ?_ d isError
    cases hk : m.get? k with
    | none => exact DurationSketch.current_new dd
    | some e => exact (h _ (FMap.mem_iff.mpr hk)).current
  · exact h row (List.mem_filter.mp hrow).1

/-- What the rows of a window are made of. -/
structure LiveWindow.RowsOk (dd : DDSketchOps D) (w : LiveWindow (DurationSketch D)) (keys : List String) : Prop where
  names : RowsMade dd w.perName
  groups : RowsMade dd w.perGroup
  keyless : keys = [] → w.perGroup.entries = []

theorem LiveWindow.rowsOk_ofSpans (dd : DDSketchOps D) (defn : CollectorDef) (spans : List SpanEntry) :
    (ofSpans (DurationSketch.ops dd) defn spans).RowsOk dd defn.groupKeys := by
  induction spans using List.reverseRecOn with
  | nil => exact ⟨fun _ h => (nomatch h), fun _ h => (nomatch h), fun _ => rfl⟩
  | append_singleton spans span ih =>
    rw [ofSpans_concat]
    refine ⟨ih.names.upsert _ _ _, ?_, fun hk => ?_⟩
    · simp only [ingest]
      split
      · exact ih.groups
      · exact ih.groups.upsert _ _ _
    · simp only [ingest, hk, List.isEmpty_nil, if_true]
      exact ih.keyless hk

/-- A run never changes the group keys. -/
theorem LiveRun.groupKeys_run {S : Type} (ops : SketchOps S) {keys : List String} {r : LiveRun S}
    (hlive : r.live.defn.groupKeys = keys) (htaken : ∀ x ∈ r.taken, x.2.defn.groupKeys = keys)
    (acts : List CollectorAct) : ∀ x ∈ (r.run ops acts).windows, x.2.defn.groupKeys = keys := by
  induction acts generalizing r with
  | nil =>
    intro x hx
    rcases List.mem_append.mp hx with hx | hx
    · exact htaken x hx
    · rw [List.mem_singleton.mp hx]
      exact hlive
  | cons a acts ih =>
    have htake : ∀ now, ∀ x ∈ (r.takeWindow ops now).taken, x.2.defn.groupKeys = keys := by
      intro now x hx
      rcases List.mem_append.mp hx with hx | hx
      · exact htaken x hx
      · rw [List.mem_singleton.mp hx]
        exact hlive
    refine @ih (r.step ops a) ?_ ?_
    · cases a with
      | snapshot reset now => cases reset <;> exact hlive
      | _ => exact hlive
    · cases a with
      | snapshot reset now =>
        cases reset with
        | true => exact htake now
        | false => exact htaken
      | reset now => exact htake now
      | _ => exact htaken

/-- A view some run of a collector shows, live or taken. -/
def LiveView.Shown (dd : DDSketchOps D) (v : LiveView (DurationSketch D)) : Prop :=
  ∃ defn now acts spans,
    (spans, v) ∈ ((LiveRun.start (DurationSketch.ops dd) defn now).run (DurationSketch.ops dd) acts).windows

/-- A recorded run: of a view, or restored from a file, which keeps no
breakdowns. -/
def RecordedRun.Recorded (dd : DDSketchOps D) (r : RecordedRun D) : Prop :=
  (∃ label description metaText takenAt policy view ingest, LiveView.Shown dd view ∧
    r = .fromView label description metaText takenAt policy view ingest) ∨
    r.perName = none ∧ r.perGroup = none

/-- The breakdowns of a recorded run, by id, add up to its total. -/
structure RecordedRun.Sound (dd : DDSketchOps D) (r : RecordedRun D) : Prop where
  names : ∀ m, r.perName = some m → LiveWindow.sumRows m = r.total.tally ∧ RowsMade dd m
  groups : ∀ m, r.perGroup = some m → r.defn.groupKeys ≠ [] → LiveWindow.sumRows m = r.total.tally
  groups_made : ∀ m, r.perGroup = some m → RowsMade dd m
  keyless : ∀ m, r.perGroup = some m → r.defn.groupKeys = [] → m.entries = []

theorem LiveView.Shown.sound {dd : DDSketchOps D} {v : LiveView (DurationSketch D)} (h : v.Shown dd)
    (label : String) (description : Option String) (metaText : String) (takenAt : ℤ) (policy : SnapshotPolicy)
    (ingest : Option TraceIngestLoss) :
    (RecordedRun.fromView label description metaText takenAt policy v ingest).Sound dd := by
  obtain ⟨defn, now, acts, spans, hx⟩ := h
  have hrows := rows_reconcile (DurationSketch.ops dd) defn now acts _ hx
  have hshows := (LiveRun.inv_run (LiveRun.inv_start (DurationSketch.ops dd) defn now) acts).shows _ hx
  have hok := LiveWindow.rowsOk_ofSpans dd defn spans
  have hkeys : v.defn.groupKeys = defn.groupKeys :=
    LiveRun.groupKeys_run (DurationSketch.ops dd) (r := .start (DurationSketch.ops dd) defn now) rfl
      (fun _ h => (nomatch h)) acts _ hx
  have hname : ∀ m, (if policy.perName then some v.perName else none) = some m → m = v.perName := by
    intro m hm
    split at hm
    · exact (Option.some.inj hm).symm
    · cases hm
  have hgroup : ∀ m, (if policy.perGroup then some v.perGroup else none) = some m → m = v.perGroup := by
    intro m hm
    split at hm
    · exact (Option.some.inj hm).symm
    · cases hm
  refine ⟨fun m hm => ?_, fun m hm hk => ?_, fun m hm => ?_, fun m hm hk => ?_⟩
  · rw [hname m hm]
    refine ⟨hrows.names, ?_⟩
    have := hshows.perName
    dsimp only at this
    rw [this]
    exact hok.names
  · rw [hgroup m hm]
    exact hrows.groups (hkeys ▸ hk)
  · rw [hgroup m hm]
    have := hshows.perGroup
    dsimp only at this
    rw [this]
    exact hok.groups
  · rw [hgroup m hm]
    have := hshows.perGroup
    dsimp only at this
    rw [this]
    exact hok.keyless (hkeys.symm.trans hk)

theorem RecordedRun.Recorded.sound {dd : DDSketchOps D} {r : RecordedRun D} (h : r.Recorded dd) : r.Sound dd := by
  rcases h with ⟨label, description, metaText, takenAt, policy, view, ingest, hshown, rfl⟩ | ⟨hn, hg⟩
  · exact hshown.sound _ _ _ _ _ _
  · refine ⟨fun m hm => ?_, fun m hm => ?_, fun m hm => ?_, fun m hm => ?_⟩
    · rw [hn] at hm
      cases hm
    · rw [hg] at hm
      cases hm
    · rw [hg] at hm
      cases hm
    · rw [hg] at hm
      cases hm

/-! ### Sums over labels -/

/-- The rows add up to a total in the three counters a diff shows. -/
structure SumsTo (m : FMap String (RowStats D)) (total : RowStats D) : Prop where
  count : (LiveWindow.sumRows m).count = total.count
  totalNs : (LiveWindow.sumRows m).totalNs = total.totalNs
  errorCount : (LiveWindow.sumRows m).errorCount = total.errorCount

theorem sumsTo_of_tally {m : FMap String (RowStats D)} {total : RowStats D}
    (h : LiveWindow.sumRows m = total.tally) : SumsTo m total :=
  ⟨congrArg Tally.count h, congrArg Tally.totalNs h, congrArg Tally.errorCount h⟩

theorem count_sum_tally {K : Type} (rows : List (K × RowStats D)) :
    Tally.count (rows.map fun q => q.2.tally).sum = (rows.map fun q => q.2.count).sum := by
  induction rows with
  | nil => rfl
  | cons r rows ih =>
    rw [List.map_cons, List.sum_cons, List.map_cons, List.sum_cons, ← ih]
    rfl

variable {K : Type}

theorem labels_perm (order : MapOrder) (label : K → String) (m : FMap K (RowStats D)) :
    ((rowsByLabel order label m).map Prod.fst).Perm (m.entries.map fun r => label r.1) := by
  have := (order.perm m).map fun r => label r.1
  rwa [rowsByLabel, List.map_map]

theorem rows_perm (order : MapOrder) (label : K → String) (m : FMap K (RowStats D)) {α : Type} (g : RowStats D → α) :
    ((rowsByLabel order label m).map fun q => g q.2).Perm (m.entries.map fun r => g r.2) := by
  have := (order.perm m).map fun r => g r.2
  rwa [rowsByLabel, List.map_map]

/-- **Collected rows add up exactly when no two share a label**, in whatever
order they come. -/
theorem sumRows_byLabel_iff (order : MapOrder) (label : K → String) {dd : DDSketchOps D} {m : FMap K (RowStats D)}
    {total : RowStats D} (hsum : LiveWindow.sumRows m = total.tally) (hmade : RowsMade dd m) :
    SumsTo (.ofRows (rowsByLabel order label m)) total ↔ (m.entries.map fun r => label r.1).Nodup := by
  rw [← (labels_perm order label m).nodup_iff]
  constructor
  · intro h
    by_contra hdup
    have hpos : ∀ r ∈ rowsByLabel order label m, 0 < r.2.count := by
      intro r hr
      obtain ⟨row, hrow, rfl⟩ := List.mem_map.mp hr
      exact (hmade row ((order.perm m).mem_iff.mp hrow)).counted
    have hlt := FMap.sum_ofRows_lt ExactStats.count hpos hdup
    have hcount := h.count
    rw [LiveWindow.sumRows, count_sum_tally] at hcount
    have htotal := congrArg Tally.count hsum
    rw [LiveWindow.sumRows, count_sum_tally] at htotal
    rw [(rows_perm order label m ExactStats.count).sum_eq, hcount, htotal] at hlt
    exact absurd hlt (Nat.lt_irrefl _)
  · intro h
    refine sumsTo_of_tally ?_
    calc LiveWindow.sumRows (.ofRows (rowsByLabel order label m))
        = ((rowsByLabel order label m).map fun q => q.2.tally).sum := ((FMap.perm_ofRows h).map _).sum_eq
      _ = LiveWindow.sumRows m := (rows_perm order label m ExactStats.tally).sum_eq
      _ = total.tally := hsum

/-! ### Merging rows -/

variable {env : MergeEnv D}

/-- Every row's sketch is of this build. -/
def RowsCurrent (env : MergeEnv D) (m : FMap String (RowStats D)) : Prop :=
  ∀ row ∈ m.entries, row.2.sketch.Current env.dd

theorem rowsCurrent_empty : RowsCurrent env ∅ := fun row hrow => by cases hrow

theorem current_of_rowsByLabel (order : MapOrder) (label : K → String) {dd : DDSketchOps D} {m : FMap K (RowStats D)}
    (hmade : RowsMade dd m) : ∀ r ∈ rowsByLabel order label m, r.2.sketch.Current dd := by
  intro r hr
  obtain ⟨row, hrow, rfl⟩ := List.mem_map.mp hr
  exact (hmade row ((order.perm m).mem_iff.mp hrow)).current

/-- **A merged row is never lost**: the sum over the labels grows by it. -/
theorem sumRows_mergeRow {out : FMap String (RowStats D)} {r : String × RowStats D} (hout : RowsCurrent env out)
    (hr : r.2.sketch.Current env.dd) :
    LiveWindow.sumRows (mergeRow env out r) = LiveWindow.sumRows out + r.2.tally ∧
      RowsCurrent env (mergeRow env out r) := by
  have hinsert : ∀ {e : RowStats D}, e.sketch.Current env.dd → RowsCurrent env (out.insert r.1 e) := by
    intro e he row hrow
    rcases List.mem_cons.mp hrow with rfl | hrow
    · exact he
    · exact hout row (List.mem_filter.mp hrow).1
  unfold mergeRow
  cases hk : out.get? r.1 with
  | none =>
    refine ⟨FMap.sum_insert ExactStats.tally ?_, hinsert hr⟩
    rw [hk, Option.map_none, Option.getD_none, zero_add]
  | some acc =>
    obtain ⟨sum, hs, hcurrent⟩ := ExactStats.merge_current (hout _ (FMap.mem_iff.mpr hk)) hr
    dsimp only
    rw [hs]
    refine ⟨FMap.sum_insert ExactStats.tally ?_, hinsert hcurrent⟩
    rw [hk, Option.map_some, Option.getD_some, ExactStats.tally_merge hs]

theorem sumRows_foldl_mergeRow {rows : List (String × RowStats D)} (hrows : ∀ r ∈ rows, r.2.sketch.Current env.dd) :
    ∀ {out : FMap String (RowStats D)}, RowsCurrent env out →
      LiveWindow.sumRows (rows.foldl (mergeRow env) out) =
        LiveWindow.sumRows out + (rows.map fun q => q.2.tally).sum := by
  induction rows with
  | nil =>
    intro out _
    rw [List.map_nil, List.sum_nil, add_zero]
    rfl
  | cons r rows ih =>
    intro out hout
    obtain ⟨hsum, hcurrent⟩ := sumRows_mergeRow hout (hrows r List.mem_cons_self)
    rw [List.foldl_cons, ih (fun x hx => hrows x (List.mem_cons_of_mem _ hx)) hcurrent, hsum, List.map_cons,
      List.sum_cons, add_assoc]

/-- One axis of some runs adds up to what their rows do. -/
theorem sumRows_mergeByLabel {extract : RecordedRun D → Option (List (String × RowStats D))}
    {runs : List (RecordedRun D)} (hmade : ∀ s ∈ runs, ∀ rows, extract s = some rows →
      ∀ r ∈ rows, r.2.sketch.Current env.dd) :
    LiveWindow.sumRows (mergeByLabel env extract runs) =
      (runs.map fun s => (((extract s).getD []).map fun q => q.2.tally).sum).sum := by
  have hall : ∀ r ∈ runs.flatMap fun s => (extract s).getD [], r.2.sketch.Current env.dd := by
    intro r hr
    obtain ⟨s, hs, hr⟩ := List.mem_flatMap.mp hr
    cases he : extract s with
    | none =>
      rw [he] at hr
      cases hr
    | some rows =>
      rw [he] at hr
      exact hmade s hs rows he r hr
  rw [mergeByLabel, sumRows_foldl_mergeRow hall rowsCurrent_empty, List.map_flatMap, List.flatMap_def, List.sum_flatten,
    List.map_map]
  exact zero_add _

theorem tally_mergeRest {layout : SketchLayout} : ∀ {runs : List (RecordedRun D)} {acc total : RowStats D},
    mergeRest env layout acc runs = .ok total → total.tally = acc.tally + (runs.map fun s => s.total.tally).sum
  | [], acc, total, h => by
    rw [← Except.ok.inj h, List.map_nil, List.sum_nil, add_zero]
  | s :: runs, acc, total, h => by
    unfold mergeRest at h
    split_ifs at h
    split at h
    · cases h
    · rename_i sum hs
      rw [tally_mergeRest h, ExactStats.tally_merge hs, List.map_cons, List.sum_cons, add_assoc]

theorem tally_mergeTotals {runs : List (RecordedRun D)} {total : RowStats D} (h : mergeTotals env runs = .ok total) :
    total.tally = (runs.map fun s => s.total.tally).sum := by
  cases runs with
  | nil => cases h
  | cons first rest => rw [tally_mergeRest h, List.map_cons, List.sum_cons]

/-! ### Arms that add up -/

/-- Every breakdown of the arm adds up to its total. A collector without group
keys has no groups to break down by. -/
structure Arm.Reconciles (arm : Arm D) : Prop where
  names : ∀ m, arm.perName = some m → SumsTo m arm.total
  groups : arm.defn.groupKeys ≠ [] → ∀ m, arm.perGroup = some m → SumsTo m arm.total

/-- On each axis, no two rows of the run have one label. -/
structure RecordedRun.LabelsDistinct (r : RecordedRun D) : Prop where
  names : ∀ m, r.perName = some m → (m.entries.map fun row => r.names.resolve row.1).Nodup
  groups : ∀ m, r.perGroup = some m → (m.entries.map fun row => groupLabel r.groupValues row.1).Nodup

/-- On each axis, no two rows of the view have one label. -/
structure LiveView.LabelsDistinct {S : Type} (v : LiveView S) : Prop where
  names : (v.perName.entries.map fun row => v.names.resolve row.1).Nodup
  groups : (v.perGroup.entries.map fun row => groupLabel v.groupValues row.1).Nodup

theorem reconciles_fromSnapshot_iff (order : MapOrder) (spec : String) {dd : DDSketchOps D} {r : RecordedRun D}
    (h : r.Sound dd) : (Arm.fromSnapshot order spec r).Reconciles ↔ r.LabelsDistinct := by
  constructor
  · intro hrec
    refine ⟨fun m hm => ?_, fun m hm => ?_⟩
    · obtain ⟨hsum, hmade⟩ := h.names m hm
      refine (sumRows_byLabel_iff order _ hsum hmade).mp (hrec.names _ ?_)
      simp only [Arm.fromSnapshot, hm, Option.map_some]
    · by_cases hk : r.defn.groupKeys = []
      · rw [h.keyless m hm hk]
        exact List.nodup_nil
      · refine (sumRows_byLabel_iff order _ (h.groups m hm hk) (h.groups_made m hm)).mp (hrec.groups hk _ ?_)
        simp only [Arm.fromSnapshot, hm, Option.map_some]
  · intro hdist
    refine ⟨fun m' hm' => ?_, fun hk m' hm' => ?_⟩
    · obtain ⟨m, hm, rfl⟩ := Option.map_eq_some_iff.mp hm'
      obtain ⟨hsum, hmade⟩ := h.names m hm
      exact (sumRows_byLabel_iff order _ hsum hmade).mpr (hdist.names m hm)
    · obtain ⟨m, hm, rfl⟩ := Option.map_eq_some_iff.mp hm'
      exact (sumRows_byLabel_iff order _ (h.groups m hm hk) (h.groups_made m hm)).mpr (hdist.groups m hm)

/-- A policy that keeps both breakdowns. -/
def SnapshotPolicy.whole : SnapshotPolicy := ⟨true, true, false⟩

/-- A live arm has the breakdowns of the run its view would be recorded as. -/
theorem reconciles_fromLive_iff (order : MapOrder) (spec : String) {dd : DDSketchOps D}
    {v : LiveView (DurationSketch D)} (h : v.Shown dd) (ingest : Option TraceIngestLoss) (readAt : ℤ) :
    (Arm.fromLive order spec v ingest readAt).Reconciles ↔ v.LabelsDistinct := by
  have hrun := reconciles_fromSnapshot_iff order spec (h.sound "" none "null" readAt .whole ingest)
  constructor
  · intro hrec
    obtain ⟨hnames, hgroups⟩ := hrun.mp ⟨hrec.names, hrec.groups⟩
    exact ⟨hnames _ rfl, hgroups _ rfl⟩
  · intro hdist
    have hrec := hrun.mpr ⟨fun m hm => Option.some.inj hm ▸ hdist.names, fun m hm => Option.some.inj hm ▸ hdist.groups⟩
    exact ⟨hrec.names, hrec.groups⟩

/-- What `merged` returns when it returns an arm. -/
theorem merged_eq_ok {order : MapOrder} {spec : String} {runs : List (RecordedRun D)} {arm : Arm D}
    (h : Arm.merged env order spec runs = .ok arm) :
    ∃ last, runs.getLast? = some last ∧ (∀ s ∈ runs, definitionDiffers env s last = false) ∧
      mergeTotals env runs = .ok arm.total ∧ arm.defn = last.defn ∧
      (arm.perName = if runs.all fun s => s.perName.isSome then
        some (mergeByLabel env (fun s => s.perName.map (rowsByLabel order s.names.resolve)) runs) else none) ∧
      arm.perGroup = if runs.all fun s => s.perGroup.isSome then
        some (mergeByLabel env (fun s => s.perGroup.map (rowsByLabel order (groupLabel s.groupValues))) runs) else none := by
  unfold Arm.merged at h
  split at h
  · cases h
  · rename_i last hlast
    split at h
    · cases h
    · rename_i hfind
      split at h
      · cases h
      · rename_i total htotal
        obtain rfl := Except.ok.inj h
        refine ⟨last, hlast, fun s hs => ?_, htotal, rfl, rfl, rfl⟩
        exact Bool.eq_false_of_not_eq_true (List.find?_eq_none.mp hfind s hs)

/-- An axis every run kept, merged, adds up to the runs' totals. -/
theorem sumRows_merged_axis (order : MapOrder) {axis : RecordedRun D → Option (FMap K (RowStats D))}
    {label : RecordedRun D → K → String} {runs : List (RecordedRun D)}
    (hall : ∀ s ∈ runs, ∃ m, axis s = some m ∧ LiveWindow.sumRows m = s.total.tally ∧ RowsMade env.dd m) :
    LiveWindow.sumRows (mergeByLabel env (fun s => (axis s).map (rowsByLabel order (label s))) runs) =
      (runs.map fun s => s.total.tally).sum := by
  rw [sumRows_mergeByLabel]
  · refine congrArg List.sum (List.map_congr_left fun s hs => ?_)
    obtain ⟨m, hm, hsum, -⟩ := hall s hs
    rw [hm, Option.map_some, Option.getD_some, (rows_perm order (label s) m ExactStats.tally).sum_eq]
    exact hsum
  · intro s hs rows hrows r hr
    obtain ⟨m, hm, -, hmade⟩ := hall s hs
    rw [hm, Option.map_some] at hrows
    rw [← Option.some.inj hrows] at hr
    exact current_of_rowsByLabel order (label s) hmade r hr

theorem groupKeys_of_same {s last : RecordedRun D} (h : definitionDiffers env s last = false) :
    s.defn.groupKeys = last.defn.groupKeys := by
  simp only [definitionDiffers, Bool.or_eq_false_iff] at h
  simpa using h.2

/-- **A merged arm adds up**, whatever labels its rows share. -/
theorem reconciles_merged {order : MapOrder} {spec : String} {runs : List (RecordedRun D)} {arm : Arm D}
    (hruns : ∀ s ∈ runs, s.Sound env.dd) (h : Arm.merged env order spec runs = .ok arm) : arm.Reconciles := by
  obtain ⟨last, -, hsame, htotal, hdefn, hname, hgroup⟩ := merged_eq_ok h
  have htally := tally_mergeTotals htotal
  refine ⟨fun m hm => sumsTo_of_tally ?_, fun hk m hm => sumsTo_of_tally ?_⟩
  · rw [hname] at hm
    split_ifs at hm with hall
    rw [← Option.some.inj hm, htally]
    refine sumRows_merged_axis order fun s hs => ?_
    obtain ⟨m, hm⟩ := Option.isSome_iff_exists.mp (List.all_eq_true.mp hall s hs)
    exact ⟨m, hm, (hruns s hs).names m hm⟩
  · rw [hgroup] at hm
    split_ifs at hm with hall
    rw [← Option.some.inj hm, htally]
    refine sumRows_merged_axis order fun s hs => ?_
    obtain ⟨m, hm⟩ := Option.isSome_iff_exists.mp (List.all_eq_true.mp hall s hs)
    have hkeys : s.defn.groupKeys ≠ [] := by
      rw [groupKeys_of_same (hsame s hs), ← hdefn]
      exact hk
    exact ⟨m, hm, (hruns s hs).groups m hm hkeys, (hruns s hs).groups_made m hm⟩

/-! ### One run, merged -/

/-- Two breakdowns with the same rows, or both absent. -/
def SameRows : Option (FMap String (RowStats D)) → Option (FMap String (RowStats D)) → Prop
  | none, none => True
  | some m, some m' => ∀ key, m.get? key = m'.get? key
  | _, _ => False

structure Arm.SameBreakdowns (a b : Arm D) : Prop where
  names : SameRows a.perName b.perName
  groups : SameRows a.perGroup b.perGroup

/-- Rows of different labels are merged as they are collected. -/
theorem foldl_mergeRow_eq_ofRows {rows : List (String × RowStats D)} (h : (rows.map Prod.fst).Nodup) :
    rows.foldl (mergeRow env) ∅ = .ofRows rows := by
  induction rows using List.reverseRecOn with
  | nil => rfl
  | append_singleton rows r ih =>
    rw [List.map_append, List.nodup_append] at h
    obtain ⟨hrows, -, hnew⟩ := h
    have hnone : (FMap.ofRows rows).get? r.1 = none := by
      rw [← Option.not_isSome_iff_eq_none, FMap.get?_ofRows_isSome]
      exact fun hin => hnew _ hin _ (List.mem_singleton_self _) rfl
    rw [List.foldl_append, List.foldl_cons, List.foldl_nil, ih hrows, FMap.ofRows_concat, mergeRow, hnone]

theorem sumRows_congr {m m' : FMap String (RowStats D)} (h : ∀ key, m.get? key = m'.get? key) :
    LiveWindow.sumRows m = LiveWindow.sumRows m' := by
  have hperm : m.entries.Perm m'.entries := by
    refine (List.perm_ext_iff_of_nodup (List.Nodup.of_map _ m.nodup) (List.Nodup.of_map _ m'.nodup)).mpr fun q => ?_
    obtain ⟨k, v⟩ := q
    rw [FMap.mem_iff, FMap.mem_iff, h]
  exact (hperm.map _).sum_eq

/-- One axis of one run, merged and collected: the same rows exactly when no
two share a label. -/
theorem sameRows_iff (order : MapOrder) (label : K → String) {m : FMap K (RowStats D)} {total : RowStats D}
    (hsum : LiveWindow.sumRows m = total.tally) (hmade : RowsMade env.dd m) :
    (∀ key, ((rowsByLabel order label m).foldl (mergeRow env) ∅).get? key =
      (FMap.ofRows (rowsByLabel order label m)).get? key) ↔ (m.entries.map fun r => label r.1).Nodup := by
  constructor
  · intro hsame
    refine (sumRows_byLabel_iff order label hsum hmade).mp (sumsTo_of_tally ?_)
    rw [← sumRows_congr hsame, sumRows_foldl_mergeRow (current_of_rowsByLabel order label hmade) rowsCurrent_empty,
      ← hsum, (rows_perm order label m ExactStats.tally).sum_eq]
    exact zero_add _
  · intro hdist key
    rw [foldl_mergeRow_eq_ofRows ((labels_perm order label m).nodup_iff.mpr hdist)]

theorem mergeByLabel_single (extract : RecordedRun D → Option (List (String × RowStats D))) {r : RecordedRun D}
    {rows : List (String × RowStats D)} (h : extract r = some rows) :
    mergeByLabel env extract [r] = rows.foldl (mergeRow env) ∅ := by
  simp [mergeByLabel, h]

/-- One run always merges with itself alone. -/
theorem merged_single (order : MapOrder) (spec : String) (r : RecordedRun D) :
    ∃ arm, Arm.merged env order spec [r] = .ok arm := by
  have hsame : definitionDiffers env r r = false := by simp [definitionDiffers]
  unfold Arm.merged
  simp only [List.getLast?_singleton, List.find?_singleton, hsame, mergeTotals, mergeRest]
  exact ⟨_, rfl⟩

/-- An axis of a single run, as the two arms show it. -/
theorem sameRows_single_iff (order : MapOrder) {axis : RecordedRun D → Option (FMap K (RowStats D))}
    {label : RecordedRun D → K → String} {r : RecordedRun D} {shown : Option (FMap String (RowStats D))}
    (hshown : shown = if [r].all fun s => (axis s).isSome then
      some (mergeByLabel env (fun s => (axis s).map (rowsByLabel order (label s))) [r]) else none) :
    SameRows shown ((axis r).map fun m => .ofRows (rowsByLabel order (label r) m)) ↔
      ∀ m, axis r = some m → ∀ key, ((rowsByLabel order (label r) m).foldl (mergeRow env) ∅).get? key =
        (FMap.ofRows (rowsByLabel order (label r) m)).get? key := by
  cases hm : axis r with
  | none =>
    have : shown = none := by simpa [hm] using hshown
    rw [this]
    exact ⟨fun _ m h => (nomatch h), fun _ => trivial⟩
  | some m =>
    have hrows : (axis r).map (rowsByLabel order (label r)) = some (rowsByLabel order (label r) m) := by rw [hm]; rfl
    have : shown = some ((rowsByLabel order (label r) m).foldl (mergeRow env) ∅) := by
      rw [hshown, mergeByLabel_single _ hrows]
      simp [hm]
    rw [this]
    refine ⟨fun h m' hm' => ?_, fun h => h m rfl⟩
    rw [← Option.some.inj hm']
    exact h

/-- The arm of one run merged shows what the arm of the run shows exactly when
no two of its rows share a label. -/
theorem sameBreakdowns_single_iff {order : MapOrder} {spec : String} {r : RecordedRun D} {arm : Arm D}
    (hr : r.Sound env.dd) (h : Arm.merged env order spec [r] = .ok arm) :
    arm.SameBreakdowns (.fromSnapshot order spec r) ↔ r.LabelsDistinct := by
  obtain ⟨last, -, -, -, -, hname, hgroup⟩ := merged_eq_ok h
  have hnames : SameRows arm.perName (Arm.fromSnapshot order spec r).perName ↔
      ∀ m, r.perName = some m → (m.entries.map fun row => r.names.resolve row.1).Nodup := by
    refine (sameRows_single_iff order hname).trans (forall₂_congr fun m hm => ?_)
    exact sameRows_iff order _ (hr.names m hm).1 (hr.names m hm).2
  have hgroups : SameRows arm.perGroup (Arm.fromSnapshot order spec r).perGroup ↔
      ∀ m, r.perGroup = some m → (m.entries.map fun row => groupLabel r.groupValues row.1).Nodup := by
    refine (sameRows_single_iff order hgroup).trans (forall₂_congr fun m hm => ?_)
    by_cases hk : r.defn.groupKeys = []
    · -- a run without group keys has no rows on this axis
      have hrows : rowsByLabel order (groupLabel r.groupValues) m = [] := by
        have := (order.perm m).length_eq
        rw [hr.keyless m hm hk] at this
        rw [rowsByLabel, List.length_eq_zero_iff.mp this]
        rfl
      rw [hrows, hr.keyless m hm hk]
      exact ⟨fun _ => List.nodup_nil, fun _ _ => rfl⟩
    · exact sameRows_iff order _ (hr.groups m hm hk) (hr.groups_made m hm)
  exact ⟨fun hs => ⟨hnames.mp hs.names, hgroups.mp hs.groups⟩, fun hd => ⟨hnames.mpr hd.names, hgroups.mpr hd.groups⟩⟩

/-- **Breakdowns reconcile exactly when labels are distinct.** In whatever order
the maps are walked: the arm of a live window or of a recorded run adds up to
its total exactly when no two rows of an axis have one label, and only then is
a run merged alone broken down as the run itself. A merged arm always adds up. -/
theorem arms_reconcile_iff (env : MergeEnv D) (order : MapOrder) (spec : String) :
    (∀ (v : LiveView (DurationSketch D)) (ingest : Option TraceIngestLoss) (readAt : ℤ), v.Shown env.dd →
      ((Arm.fromLive order spec v ingest readAt).Reconciles ↔ v.LabelsDistinct)) ∧
    (∀ r : RecordedRun D, r.Recorded env.dd →
      ((Arm.fromSnapshot order spec r).Reconciles ↔ r.LabelsDistinct) ∧
      ∃ arm, Arm.merged env order spec [r] = .ok arm ∧
        (arm.SameBreakdowns (.fromSnapshot order spec r) ↔ r.LabelsDistinct)) ∧
    ∀ (runs : List (RecordedRun D)) (arm : Arm D), (∀ s ∈ runs, s.Recorded env.dd) →
      Arm.merged env order spec runs = .ok arm → arm.Reconciles := by
  refine ⟨fun v ingest readAt hv => reconciles_fromLive_iff order spec hv ingest readAt, fun r hr => ?_, ?_⟩
  · obtain ⟨arm, harm⟩ := @merged_single D env order spec r
    exact ⟨reconciles_fromSnapshot_iff order spec hr.sound, arm, harm, sameBreakdowns_single_iff hr.sound harm⟩
  · exact fun runs arm hruns harm => reconciles_merged (fun s hs => (hruns s hs).sound) harm

/-! ### Two tuples of one label -/

/-- A sketch that keeps every value. -/
def DDSketchOps.keeping : DDSketchOps (List ℤ) where
  new := []
  add d ns := d ++ [ns]
  merge a b := some (a ++ b)
  Configured _ := True
  configured_new := trivial
  configured_add _ _ _ := trivial
  merge_configured _ _ _ _ := ⟨_, rfl, trivial⟩

def MergeEnv.keeping : MergeEnv (List ℤ) := ⟨.ascii, String.intercalate ", ", .keeping⟩

/-- A span of one microsecond with the given attributes. -/
def attributedSpan (attributes : List (String × JsonValue)) : SpanEntry :=
  { spanWith "" "" with name := "query", startTime := 1000, endTime := 2000, attributes }

/-- A collector over two group keys. -/
def pairedDef : CollectorDef := { CollectorDef.sample "perf" 0 with level := .scalar, groupKeys := ["db", "table"] }

/-- The view after some spans, never reset. -/
def pairedView (spans : List SpanEntry) : LiveView (DurationSketch (List ℤ)) :=
  ((LiveRun.start (DurationSketch.ops .keeping) pairedDef 0).run (DurationSketch.ops .keeping)
    (spans.map .ingest)).live.snapshot

theorem shown_pairedView (spans : List SpanEntry) : (pairedView spans).Shown .keeping :=
  ⟨pairedDef, 0, spans.map .ingest, _, List.mem_append_right _ (List.mem_singleton_self _)⟩

/-- Two spans of two tuples that read `a / b / c`. -/
def joinedSpans : List SpanEntry :=
  [attributedSpan [("db", .string "a"), ("table", .string "b / c")],
    attributedSpan [("db", .string "a / b"), ("table", .string "c")]]

/-- Two spans of two tuples with labels of their own. -/
theorem arms_reconcile_iff_apart :
    (Arm.fromLive .asListed "perf" (pairedView [attributedSpan [("db", .string "a"), ("table", .string "b")],
      attributedSpan [("db", .string "a"), ("table", .string "c")]]) none 0).Reconciles := by
  refine ((arms_reconcile_iff .keeping .asListed "perf").1 _ none 0 (shown_pairedView _)).mpr ⟨?_, ?_⟩
  · decide +kernel
  · decide +kernel

/-- Two tuples of one label: one of the two spans is in no group row, of the
live arm and of the run's, while the run merged alone has both. -/
theorem reconciles_of_joined_values :
    ¬ (Arm.fromLive .asListed "perf" (pairedView joinedSpans) none 0).Reconciles ∧
    ¬ (Arm.fromSnapshot .asListed "perf"
        (.fromView "run" none "null" 0 .whole (pairedView joinedSpans) none)).Reconciles ∧
    ∃ arm, Arm.merged .keeping .asListed "perf"
        [.fromView "run" none "null" 0 .whole (pairedView joinedSpans) none] = .ok arm ∧ arm.Reconciles ∧
      ¬ arm.SameBreakdowns (.fromSnapshot .asListed "perf"
        (.fromView "run" none "null" 0 .whole (pairedView joinedSpans) none)) := by
  have hdup : ¬ ((pairedView joinedSpans).perGroup.entries.map fun row =>
      groupLabel (pairedView joinedSpans).groupValues row.1).Nodup := by
    decide +kernel
  have hsound := (shown_pairedView joinedSpans).sound "run" none "null" 0 .whole none
  have hrun : ¬ (RecordedRun.fromView "run" none "null" 0 .whole (pairedView joinedSpans) none).LabelsDistinct :=
    fun h => hdup (h.groups _ rfl)
  obtain ⟨arm, harm⟩ := @merged_single _ .keeping .asListed "perf"
    (.fromView "run" none "null" 0 .whole (pairedView joinedSpans) none)
  refine ⟨fun h => ?_, fun h => ?_, arm, harm, reconciles_merged (fun s hs => ?_) harm, fun h => ?_⟩
  · exact hdup ((reconciles_fromLive_iff .asListed "perf" (shown_pairedView joinedSpans) none 0).mp h).groups
  · exact hrun ((reconciles_fromSnapshot_iff .asListed "perf" hsound).mp h)
  · rw [List.mem_singleton.mp hs]
    exact hsound
  · exact hrun ((sameBreakdowns_single_iff hsound harm).mp h)

end Logmon
