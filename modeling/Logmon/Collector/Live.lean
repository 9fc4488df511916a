/-
# A collector's live window

`collector/state.rs`: what a span does to a collector, and the operations
that copy or take its data field by field: a snapshot, a swap, and the
definition replaced over the same data. The rolling ring of a threshold lies
outside the lock and moves none of this, so it is left out.

A run ingests, snapshots, resets and redescribes one collector. Each window is
what its own spans make of an empty one (`LiveRun.Inv`), so nothing is lost
across windows (`windows_reconcile`).

Key definitions: `LiveWindow`, `LiveWindow.ingest`, `LiveCollector`,
`LiveCollector.withDef`, `LiveCollector.swap`, `LiveRun`.
Key theorems: `LiveCollector.toCollector_swap`, `LiveWindow.Holds.ingest`,
`LiveRun.inv_run`, `windows_reconcile`.
-/
import Logmon.Collector.Exact
import Logmon.Collector.Sample
import Mathlib.Data.List.Induction

namespace Logmon

open Lib

variable {S : Type}

/-- Distinct group tuples carrying their own stats. Past this they fold into
an all-overflow tuple. -/
def maxGroupTuples : ℕ := 256

/-- The data of a window: what `Inner` holds beside its two times. -/
structure LiveWindow (S : Type) where
  total : ExactStats S
  perName : FMap ℕ (ExactStats S)
  perGroup : FMap (List ℕ) (ExactStats S)
  names : Interner
  groupValues : List Interner
  samples : SampleTier
  groupTuplesCapped : Bool

/-- `Inner`: everything under the collector's lock. -/
structure LiveInner (S : Type) extends LiveWindow S where
  armedAt : ℤ
  zeroedAt : Option ℤ

/-- `render_attribute`: arrays, objects and null are no dimension. -/
def renderAttribute : JsonValue → Option String
  | .string s => some s
  | .bool b => some (if b then "true" else "false")
  | .number text => some text
  | .null => none
  | .compound _ => none

/-- One group key of a span: its id, and the interner after. -/
def groupId (attributes : List (String × JsonValue)) (key : String) (values : Interner) : ℕ × Interner :=
  match attributes.lookup key with
  | none => (absentId, values)
  | some v =>
    match renderAttribute v with
    | none => (absentId, values)
    | some s => values.intern s

/-- The loop over the group keys: the span's own tuple, and the interners
after. There is an interner for every key (`LiveWindow.length_groupValues`). -/
def groupIds (attributes : List (String × JsonValue)) : List String → List Interner → List ℕ × List Interner
  | key :: keys, values :: rest =>
    ((groupId attributes key values).1 :: (groupIds attributes keys rest).1,
      (groupId attributes key values).2 :: (groupIds attributes keys rest).2)
  | _, rest => ([], rest)

/-- What a span offers to the sample tier under a name id. -/
def SampleRecord.ofSpan (nameId : ℕ) (span : SpanEntry) : SampleRecord where
  startNs := span.startTime
  endNs := span.endTime
  nameId
  flags := packFlags span.status span.kind
  spanId := span.spanId
  parentSpanId := span.parentSpanId.getD 0
  traceId := span.traceId

namespace LiveWindow

/-- `Inner::new`, its data. -/
def new (ops : SketchOps S) (defn : CollectorDef) : LiveWindow S where
  total := .new ops
  perName := ∅
  perGroup := ∅
  names := .new defaultNameCap
  groupValues := defn.groupKeys.map fun _ => .new defaultGroupValueCap
  samples := .new defn.level defn.groupKeys.length defn.maxSampleBytes
  groupTuplesCapped := false

/-- The span's own tuple, before any folding. -/
def ownTuple (w : LiveWindow S) (keys : List String) (span : SpanEntry) : List ℕ :=
  (groupIds span.attributes keys w.groupValues).1

def overflowTuple (keys : List String) : List ℕ := List.replicate keys.length overflowId

/-- There is no row for the span's tuple and no room for one. -/
def folds (w : LiveWindow S) (keys : List String) (span : SpanEntry) : Bool :=
  !keys.isEmpty && (!(w.perGroup.get? (w.ownTuple keys span)).isSome && w.perGroup.entries.length ≥ maxGroupTuples)

/-- The tuple the span is counted under. -/
def tupleOf (w : LiveWindow S) (keys : List String) (span : SpanEntry) : List ℕ :=
  if w.folds keys span then overflowTuple keys else w.ownTuple keys span

/-- Fold one matched span in. -/
def ingest (ops : SketchOps S) (keys : List String) (w : LiveWindow S) (span : SpanEntry) : LiveWindow S where
  total := w.total.record ops (classify span) (isError span)
  names := (w.names.intern span.name).2
  perName := w.perName.upsert (w.names.intern span.name).1 (.new ops)
    (ExactStats.record ops (classify span) (isError span))
  groupValues := (groupIds span.attributes keys w.groupValues).2
  groupTuplesCapped := w.groupTuplesCapped || w.folds keys span
  perGroup :=
    if keys.isEmpty then w.perGroup
    else w.perGroup.upsert (w.tupleOf keys span) (.new ops) (ExactStats.record ops (classify span) (isError span))
  samples :=
    match classify span, timestampNanos span.startTime, timestampNanos span.endTime with
    | .ok _, some _, some _ =>
      (w.samples.push (.ofSpan (w.names.intern span.name).1 span) (w.tupleOf keys span)).1
    | _, _, _ => w.samples

end LiveWindow

/-! ### The collector -/

/-- A collector: its definition and what its lock guards. -/
structure LiveCollector (S : Type) where
  defn : CollectorDef
  inner : LiveInner S

/-- `CollectorSnapshot`: a consistent view. -/
structure LiveView (S : Type) where
  defn : CollectorDef
  total : ExactStats S
  perName : FMap ℕ (ExactStats S)
  perGroup : FMap (List ℕ) (ExactStats S)
  names : Interner
  groupValues : List Interner
  samples : SampleSnapshot
  armedAt : ℤ
  zeroedAt : Option ℤ
  groupTuplesCapped : Bool

def LiveInner.new (ops : SketchOps S) (defn : CollectorDef) (now : ℤ) : LiveInner S :=
  { LiveWindow.new ops defn with armedAt := now, zeroedAt := none }

namespace LiveCollector

def new (ops : SketchOps S) (defn : CollectorDef) (now : ℤ) : LiveCollector S := ⟨defn, .new ops defn now⟩

def ingest (ops : SketchOps S) (c : LiveCollector S) (span : SpanEntry) : LiveCollector S :=
  { c with inner := { c.inner.toLiveWindow.ingest ops c.defn.groupKeys span with
      armedAt := c.inner.armedAt, zeroedAt := c.inner.zeroedAt } }

/-- A collector with a new definition and the same live data. -/
def withDef (ops : SketchOps S) (c : LiveCollector S) (defn : CollectorDef) : LiveCollector S where
  defn := defn
  inner :=
    { LiveInner.new ops defn c.inner.armedAt with
      total := c.inner.total
      perName := c.inner.perName
      perGroup := c.inner.perGroup
      names := c.inner.names
      groupValues := c.inner.groupValues
      samples := c.inner.samples
      zeroedAt := c.inner.zeroedAt
      groupTuplesCapped := c.inner.groupTuplesCapped }

/-- The view of an inner state under a definition. -/
def viewOf (defn : CollectorDef) (g : LiveInner S) : LiveView S where
  defn := defn
  total := g.total
  perName := g.perName
  perGroup := g.perGroup
  names := g.names
  groupValues := g.groupValues
  samples := g.samples.snapshot
  armedAt := g.armedAt
  zeroedAt := g.zeroedAt
  groupTuplesCapped := g.groupTuplesCapped

/-- A view that disturbs nothing. -/
def snapshot (c : LiveCollector S) : LiveView S := viewOf c.defn c.inner

/-- Take everything and start clean: what was taken, and what is left. -/
def swap (ops : SketchOps S) (c : LiveCollector S) (now : ℤ) : LiveView S × LiveCollector S :=
  (viewOf c.defn c.inner, { c with inner := { LiveInner.new ops c.defn c.inner.armedAt with zeroedAt := some now } })

/-! The registry's collector is this one, read through its window. -/

/-- The live window as the registry uses it. -/
def env (ops : SketchOps S) (parseFilter : String → Except String ParsedFilter)
    (matchesSpan : ParsedFilter → SpanEntry → Bool) : CollectorEnv (LiveWindow S) SpanEntry where
  parseFilter
  fresh := .new ops
  count w := w.total.count
  count_fresh _ := rfl
  matchesSpan
  ingest defn span w := w.ingest ops defn.groupKeys span

def toCollector (c : LiveCollector S) : Collector (LiveWindow S) :=
  { defn := c.defn, window := c.inner.toLiveWindow, armedAt := c.inner.armedAt, zeroedAt := c.inner.zeroedAt }

variable (ops : SketchOps S) (parseFilter : String → Except String ParsedFilter)
  (matchesSpan : ParsedFilter → SpanEntry → Bool)

theorem toCollector_new (defn : CollectorDef) (now : ℤ) :
    (new ops defn now).toCollector = Collector.new (env ops parseFilter matchesSpan) defn now := rfl

theorem toCollector_ingest (c : LiveCollector S) (span : SpanEntry) :
    (c.ingest ops span).toCollector = c.toCollector.ingest (env ops parseFilter matchesSpan) span := rfl

/-- Every field is carried over, so the registry may keep the window whole. -/
theorem toCollector_withDef (c : LiveCollector S) (defn : CollectorDef) :
    (c.withDef ops defn).toCollector = c.toCollector.withDef defn := rfl

theorem toCollector_swap (c : LiveCollector S) (now : ℤ) :
    (c.swap ops now).2.toCollector = c.toCollector.swap (env ops parseFilter matchesSpan) now := rfl

end LiveCollector

/-! ### A window is what its spans make of it -/

namespace LiveWindow

/-- The window some spans make of an empty one. -/
def ofSpans (ops : SketchOps S) (defn : CollectorDef) (spans : List SpanEntry) : LiveWindow S :=
  spans.foldl (ingest ops defn.groupKeys) (new ops defn)

theorem ofSpans_concat (ops : SketchOps S) (defn : CollectorDef) (spans : List SpanEntry) (span : SpanEntry) :
    ofSpans ops defn (spans ++ [span]) = (ofSpans ops defn spans).ingest ops defn.groupKeys span := by
  simp [ofSpans]

/-- The total counts every span once. -/
theorem tally_ofSpans (ops : SketchOps S) (defn : CollectorDef) (spans : List SpanEntry) :
    (ofSpans ops defn spans).total.tally = (spans.map Tally.ofSpan).sum := by
  induction spans using List.reverseRecOn with
  | nil => rfl
  | append_singleton spans span ih =>
    rw [ofSpans_concat, List.map_append, List.sum_append, ← ih]
    simp only [ingest, ExactStats.tally_record, List.map_singleton, List.sum_singleton]

/-- The well-formed spans among some. -/
def wellFormed (spans : List SpanEntry) : List SpanEntry := spans.filter SpanEntry.wellFormed

theorem wellFormed_concat (spans : List SpanEntry) (span : SpanEntry) :
    wellFormed (spans ++ [span]) = wellFormed spans ++ if span.wellFormed then [span] else [] := by
  rw [wellFormed, List.filter_append, List.filter_singleton]
  cases span.wellFormed <;> rfl

/-- The record of a span under the names of a table. -/
def recordOf (names : Interner) (span : SpanEntry) : SampleRecord := .ofSpan (names.idOf span.name) span

/-- The names of all the spans were offered to the table, and the well-formed
spans, under the ids the table still shows, to the sample tier. -/
structure Holds (w : LiveWindow S) (defn : CollectorDef) (spans : List SpanEntry) : Prop where
  seen : ∀ span ∈ spans, w.names.Seen span.name
  retains : w.samples.Retains ((wellFormed spans).map (recordOf w.names))
  level : w.samples.level = defn.level

theorem holds_new (ops : SketchOps S) (defn : CollectorDef) : (new ops defn).Holds defn [] :=
  ⟨fun _ h => (nomatch h), SampleTier.retains_new _ _ _, rfl⟩

/-- The two timestamps of a well-formed span convert. -/
theorem timestamps_of_ok {span : SpanEntry} {ns : ℤ} (h : classify span = .ok ns) :
    timestampNanos span.startTime = some span.startTime ∧ timestampNanos span.endTime = some span.endTime := by
  have hsome : ∀ {t u : ℤ}, timestampNanos t = some u → u = t := by
    intro t u ht
    unfold timestampNanos at ht
    split at ht
    · exact (Option.some.inj ht).symm
    · cases ht
  unfold classify at h
  split at h
  · rename_i a b ha hb
    exact ⟨by rw [ha, hsome ha], by rw [hb, hsome hb]⟩
  · cases h

/-- What an ingest offers to the sample tier: a well-formed span, and nothing
else. -/
theorem samples_ingest (ops : SketchOps S) (keys : List String) (w : LiveWindow S) (span : SpanEntry) :
    (w.ingest ops keys span).samples =
      if span.wellFormed then
        (w.samples.push (.ofSpan (w.names.intern span.name).1 span) (w.tupleOf keys span)).1
      else w.samples := by
  unfold ingest SpanEntry.wellFormed
  cases hc : classify span with
  | ok ns =>
    obtain ⟨hs, he⟩ := timestamps_of_ok hc
    simp [hs, he]
  | negative ns => simp
  | malformed => simp

theorem level_push (t : SampleTier) (r : SampleRecord) (ids : List ℕ) : (t.push r ids).1.level = t.level := by
  cases hs : t.level.hasSamples with
  | true => exact (t.push_cases r ids hs).1
  | false => rw [t.push_scalar r ids hs]

theorem Holds.ingest (ops : SketchOps S) {keys : List String} {w : LiveWindow S} {defn : CollectorDef}
    {spans : List SpanEntry} (h : w.Holds defn spans) (span : SpanEntry) :
    (w.ingest ops keys span).Holds defn (spans ++ [span]) := by
  have hnames : (w.ingest ops keys span).names = (w.names.intern span.name).2 := rfl
  have hold : (wellFormed spans).map (recordOf (w.names.intern span.name).2) =
      (wellFormed spans).map (recordOf w.names) := by
    refine List.map_congr_left fun x hx => ?_
    unfold recordOf
    rw [(Interner.lookup_intern (h.seen x (List.mem_filter.mp hx).1) span.name).2]
  refine ⟨?_, ?_, ?_⟩
  · intro x hx
    rw [hnames]
    rcases List.mem_append.mp hx with hx | hx
    · exact (Interner.lookup_intern (h.seen x hx) span.name).1
    · rw [List.mem_singleton.mp hx]
      exact Interner.seen_intern _ _
  · rw [hnames, samples_ingest, wellFormed_concat, List.map_append, hold]
    by_cases hw : span.wellFormed = true
    · have hrec : recordOf (w.names.intern span.name).2 span = .ofSpan (w.names.intern span.name).1 span := by
        unfold recordOf
        rw [Interner.idOf_intern]
      rw [if_pos hw, if_pos hw, List.map_singleton, hrec]
      exact h.retains.push _ _
    · rw [if_neg hw, if_neg hw, List.map_nil, List.append_nil]
      exact h.retains
  · rw [samples_ingest]
    split
    · rw [level_push]
      exact h.level
    · exact h.level

theorem holds_ofSpans (ops : SketchOps S) (defn : CollectorDef) (spans : List SpanEntry) :
    (ofSpans ops defn spans).Holds defn spans := by
  induction spans using List.reverseRecOn with
  | nil => exact holds_new ops defn
  | append_singleton spans span ih =>
    rw [ofSpans_concat]
    exact ih.ingest ops span

end LiveWindow

/-! ### Runs of one collector -/

/-- What is done to one collector. -/
inductive CollectorAct
  | ingest (span : SpanEntry)
  | snapshot (reset : Bool) (now : ℤ)
  | reset (now : ℤ)
  | describe (description : Option String)

/-- The spans a run offers, in order. -/
def CollectorAct.ingested : List CollectorAct → List SpanEntry
  | [] => []
  | .ingest span :: acts => span :: ingested acts
  | _ :: acts => ingested acts

/-- A run: the collector, the spans of its live window, and every window taken
so far with the spans ingested in it. -/
structure LiveRun (S : Type) where
  live : LiveCollector S
  spans : List SpanEntry
  taken : List (List SpanEntry × LiveView S)

namespace LiveRun

def start (ops : SketchOps S) (defn : CollectorDef) (now : ℤ) : LiveRun S := ⟨.new ops defn now, [], []⟩

def takeWindow (ops : SketchOps S) (r : LiveRun S) (now : ℤ) : LiveRun S :=
  { live := (r.live.swap ops now).2, spans := [], taken := r.taken ++ [(r.spans, (r.live.swap ops now).1)] }

def step (ops : SketchOps S) (r : LiveRun S) : CollectorAct → LiveRun S
  | .ingest span => { r with live := r.live.ingest ops span, spans := r.spans ++ [span] }
  | .snapshot true now => r.takeWindow ops now
  | .snapshot false _ => r
  | .reset now => r.takeWindow ops now
  | .describe description => { r with live := r.live.withDef ops { r.live.defn with description } }

def run (ops : SketchOps S) (r : LiveRun S) (acts : List CollectorAct) : LiveRun S := acts.foldl (step ops) r

/-- Every window with its spans, the live one last. -/
def windows (r : LiveRun S) : List (List SpanEntry × LiveView S) := r.taken ++ [(r.spans, r.live.snapshot)]

/-- A view shows the window its spans make, under a definition that is the
first one but for its description. -/
structure Shows (ops : SketchOps S) (defn : CollectorDef) (x : List SpanEntry × LiveView S) : Prop where
  total : x.2.total = (LiveWindow.ofSpans ops defn x.1).total
  perName : x.2.perName = (LiveWindow.ofSpans ops defn x.1).perName
  perGroup : x.2.perGroup = (LiveWindow.ofSpans ops defn x.1).perGroup
  groupTuplesCapped : x.2.groupTuplesCapped = (LiveWindow.ofSpans ops defn x.1).groupTuplesCapped
  names : x.2.names = (LiveWindow.ofSpans ops defn x.1).names
  samples : x.2.samples = (LiveWindow.ofSpans ops defn x.1).samples.snapshot

/-- The live window is what its spans make of an empty one, and so was every
window taken. -/
structure Inv (ops : SketchOps S) (defn : CollectorDef) (r : LiveRun S) : Prop where
  described : ∃ description, r.live.defn = { defn with description }
  live : r.live.inner.toLiveWindow = LiveWindow.ofSpans ops defn r.spans
  taken : ∀ x ∈ r.taken, Shows ops defn x

variable {ops : SketchOps S} {defn : CollectorDef} {r : LiveRun S}

theorem inv_start (ops : SketchOps S) (defn : CollectorDef) (now : ℤ) : (start ops defn now).Inv ops defn :=
  ⟨⟨_, rfl⟩, rfl, fun _ h => (nomatch h)⟩

theorem Inv.shows_live (h : r.Inv ops defn) : Shows ops defn (r.spans, r.live.snapshot) := by
  refine ⟨?_, ?_, ?_, ?_, ?_, ?_⟩ <;> rw [← h.live] <;> rfl

theorem Inv.shows (h : r.Inv ops defn) : ∀ x ∈ r.windows, Shows ops defn x := by
  intro x hx
  rcases List.mem_append.mp hx with hx | hx
  · exact h.taken x hx
  · rw [List.mem_singleton.mp hx]
    exact h.shows_live

theorem Inv.takeWindow (h : r.Inv ops defn) (now : ℤ) : (r.takeWindow ops now).Inv ops defn := by
  obtain ⟨description, hd⟩ := h.described
  refine ⟨⟨description, hd⟩, ?_, fun x hx => ?_⟩
  · show LiveWindow.new ops r.live.defn = LiveWindow.new ops defn
    rw [hd]
    rfl
  · rcases List.mem_append.mp hx with hx | hx
    · exact h.taken x hx
    · rw [List.mem_singleton.mp hx]
      exact h.shows_live

theorem Inv.step (h : r.Inv ops defn) (a : CollectorAct) : (r.step ops a).Inv ops defn := by
  cases a with
  | ingest span =>
    obtain ⟨description, hd⟩ := h.described
    refine ⟨⟨description, hd⟩, ?_, h.taken⟩
    show r.live.inner.toLiveWindow.ingest ops r.live.defn.groupKeys span = _
    rw [hd, h.live]
    exact (LiveWindow.ofSpans_concat ops defn r.spans span).symm
  | snapshot reset now =>
    cases reset with
    | true => exact h.takeWindow now
    | false => exact h
  | reset now => exact h.takeWindow now
  | describe description =>
    obtain ⟨old, hd⟩ := h.described
    refine ⟨⟨description, ?_⟩, h.live, h.taken⟩
    show { r.live.defn with description } = _
    rw [hd]

theorem inv_run (h : r.Inv ops defn) (acts : List CollectorAct) : (r.run ops acts).Inv ops defn := by
  induction acts generalizing r with
  | nil => exact h
  | cons a acts ih => exact ih (h.step a)

/-- The windows' spans are the spans ingested, in order. -/
theorem spans_run (r : LiveRun S) (acts : List CollectorAct) :
    ((r.run ops acts).windows.map Prod.fst).flatten =
      (r.windows.map Prod.fst).flatten ++ CollectorAct.ingested acts := by
  induction acts generalizing r with
  | nil => simp [run, CollectorAct.ingested]
  | cons a acts ih =>
    show (((r.step ops a).run ops acts).windows.map Prod.fst).flatten = _
    rw [ih]
    cases a with
    | ingest span => simp [step, windows, CollectorAct.ingested]
    | snapshot reset now => cases reset <;> simp [step, takeWindow, windows, CollectorAct.ingested]
    | reset now => simp [step, takeWindow, windows, CollectorAct.ingested]
    | describe description => simp [step, windows, CollectorAct.ingested]

end LiveRun

/-- The view retained a prefix of its window's well-formed spans, in order of
arrival, and says `complete` when it is all of them. -/
def LiveView.KeepsFirst (v : LiveView S) (defn : CollectorDef) (spans : List SpanEntry) : Prop :=
  ∃ kept, kept <+: LiveWindow.wellFormed spans ∧
    v.samples.records = kept.map (fun s => (LiveWindow.recordOf v.names s).atLevel defn.level) ∧
    (defn.level.hasSamples = true → (v.samples.complete = true ↔ kept = LiveWindow.wellFormed spans))

theorem LiveRun.Shows.keepsFirst {ops : SketchOps S} {defn : CollectorDef} {x : List SpanEntry × LiveView S}
    (h : LiveRun.Shows ops defn x) : x.2.KeepsFirst defn x.1 := by
  obtain ⟨-, hretains, hlevel⟩ := LiveWindow.holds_ofSpans ops defn x.1
  obtain ⟨hheld, hcomplete, -⟩ := hretains
  rw [← h.names] at hheld hcomplete
  rw [hlevel] at hheld hcomplete
  rw [List.map_map] at hheld
  have hkept := List.prefix_iff_eq_take.mp hheld
  rw [← List.map_take] at hkept
  have hle := hheld.length_le
  rw [List.length_map] at hle
  refine ⟨_, List.take_prefix (LiveWindow.ofSpans ops defn x.1).samples.snapshot.records.length _, ?_, fun hs => ?_⟩
  · rw [h.samples]
    exact hkept
  · rw [h.samples]
    refine (hcomplete hs).trans ?_
    rw [List.length_map]
    constructor
    · intro he
      rw [he, List.take_length]
    · intro he
      have := congrArg List.length he
      rw [List.length_take] at this
      omega

/-- **Nothing is lost across windows.** Over any run of one collector, the
counters of the windows taken and of the live one add up to those of a
collector that ingested the same spans and was never read, every window kept
its first well-formed spans, and a sample that says `complete` has them all. -/
theorem windows_reconcile (ops : SketchOps S) (defn : CollectorDef) (now : ℤ) (acts : List CollectorAct) :
    (((LiveRun.start ops defn now).run ops acts).windows.map Prod.fst).flatten = CollectorAct.ingested acts ∧
    (((LiveRun.start ops defn now).run ops acts).windows.map fun x => x.2.total.tally).sum =
      ((CollectorAct.ingested acts).foldl (LiveCollector.ingest ops) (.new ops defn now)).snapshot.total.tally ∧
    ∀ x ∈ ((LiveRun.start ops defn now).run ops acts).windows, x.2.KeepsFirst defn x.1 := by
  have hinv := LiveRun.inv_run (LiveRun.inv_start ops defn now) acts
  have hspans : (((LiveRun.start ops defn now).run ops acts).windows.map Prod.fst).flatten =
      CollectorAct.ingested acts := by
    rw [LiveRun.spans_run]
    rfl
  have hsingle : ∀ spans : List SpanEntry,
      (spans.foldl (LiveCollector.ingest ops) (.new ops defn now)).defn = defn ∧
      (spans.foldl (LiveCollector.ingest ops) (.new ops defn now)).inner.toLiveWindow =
        LiveWindow.ofSpans ops defn spans := by
    intro spans
    induction spans using List.reverseRecOn with
    | nil => exact ⟨rfl, rfl⟩
    | append_singleton spans span ih =>
      rw [List.foldl_append, LiveWindow.ofSpans_concat, ← ih.2]
      refine ⟨ih.1, ?_⟩
      show LiveWindow.ingest ops _ _ span = _
      rw [ih.1]
  refine ⟨hspans, ?_, fun x hx => (hinv.shows x hx).keepsFirst⟩
  have htotal : ((CollectorAct.ingested acts).foldl (LiveCollector.ingest ops) (.new ops defn now)).snapshot.total =
      (LiveWindow.ofSpans ops defn (CollectorAct.ingested acts)).total := by
    rw [← (hsingle _).2]
    rfl
  rw [htotal, LiveWindow.tally_ofSpans, ← hspans, List.map_flatten, List.sum_flatten, List.map_map, List.map_map]
  refine congrArg List.sum (List.map_congr_left fun x hx => ?_)
  rw [(hinv.shows x hx).total, LiveWindow.tally_ofSpans]
  rfl

end Logmon
