/-
# Collectors, their windows and their recorded runs

`collector/state.rs`, `collector/history.rs` and the span-loss counters of
`receiver/metrics.rs`. A collector is a definition over a live window; what
the registry needs of a window (an empty one, how many spans it holds, what a
span does to it) and of the filter parser is a `CollectorEnv`. The sample
projections of a snapshot and its `f64` wall time are computed outside every
lock from the view the snapshot keeps, and are left out.

Key definitions: `CollectorDef`, `Collector`, `TraceIngestLoss`,
`ReceiverMetrics`, `StoredSnapshot`, `History`.
Key theorems: `History.autoLabel_fresh`, `ReceiverMetrics.record_loss`.
-/
import Logmon.Daemon.Identity
import Logmon.Filter.Parser
import Mathlib.Data.Int.Notation
import Mathlib.Data.List.Nodup
import Mathlib.Data.List.Perm.Subperm

namespace Logmon

/-- Retention level (`collector::sample::Level`). -/
inductive SampleLevel
  | scalar
  | timing
  | tree
  deriving DecidableEq

namespace SampleLevel

def hasSamples : SampleLevel → Bool
  | .scalar => false
  | _ => true

def asStr : SampleLevel → String
  | .scalar => "scalar"
  | .timing => "timing"
  | .tree => "tree"

end SampleLevel

/-- What a threshold watches. -/
inductive Metric
  | count
  | totalMs
  | avgMs
  | errorCount
  | errorRatePct
  deriving DecidableEq

def Metric.asStr : Metric → String
  | .count => "count"
  | .totalMs => "total_ms"
  | .avgMs => "avg_ms"
  | .errorCount => "error_count"
  | .errorRatePct => "error_rate_pct"

inductive ThresholdOp
  | gt
  | gte
  | lt
  | lte
  deriving DecidableEq

def ThresholdOp.asStr : ThresholdOp → String
  | .gt => "gt"
  | .gte => "gte"
  | .lt => "lt"
  | .lte => "lte"

/-- A threshold as declared. Its limit is finite (`Threshold::validate`). -/
structure Threshold where
  metric : Metric
  group : Option String
  op : ThresholdOp
  value : ℚ
  windowMs : ℕ
  deriving DecidableEq

/-- A collector's definition. -/
structure CollectorDef where
  name : String
  filterString : String
  filter : ParsedFilter
  level : SampleLevel
  groupKeys : List String
  maxSampleBytes : ℕ
  description : Option String
  threshold : Option Threshold
  deriving DecidableEq

/-- What the registry uses of the rest of the daemon: the filter parser, and
the live window of a collector, its threshold ring included. -/
structure CollectorEnv (W Span : Type) where
  parseFilter : String → Except String ParsedFilter
  /-- The window of a collector just built from a definition. -/
  fresh : CollectorDef → W
  /-- The spans the window counts, `total.count`. -/
  count : W → ℕ
  count_fresh : ∀ d, count (fresh d) = 0
  matchesSpan : ParsedFilter → Span → Bool
  ingest : CollectorDef → Span → W → W

/-- A window that only counts its spans, for the runs on fixed inputs. -/
def CollectorEnv.counting : CollectorEnv ℕ Unit where
  parseFilter _ := .ok .all
  fresh _ := 0
  count w := w
  count_fresh _ := rfl
  matchesSpan _ _ := true
  ingest _ _ w := w + 1

/-- A definition for the runs on fixed inputs. -/
def CollectorDef.sample (name : String) (maxSampleBytes : ℕ) : CollectorDef :=
  { name, filterString := "ALL", filter := .all, level := .tree, groupKeys := [], maxSampleBytes,
    description := none, threshold := none }

variable {W Span : Type}

/-- A consistent view of a collector. -/
structure CollectorSnapshot (W : Type) where
  defn : CollectorDef
  window : W
  armedAt : ℤ
  zeroedAt : Option ℤ
  deriving DecidableEq

/-- The window the data covers: from the later of arming and the last
zeroing. -/
def CollectorSnapshot.windowStart (v : CollectorSnapshot W) : ℤ :=
  match v.zeroedAt with
  | some z => if z > v.armedAt then z else v.armedAt
  | none => v.armedAt

structure Collector (W : Type) where
  defn : CollectorDef
  window : W
  armedAt : ℤ
  zeroedAt : Option ℤ
  deriving DecidableEq

namespace Collector

def new (env : CollectorEnv W Span) (defn : CollectorDef) (now : ℤ) : Collector W :=
  { defn, window := env.fresh defn, armedAt := now, zeroedAt := none }

def isZeroed (env : CollectorEnv W Span) (c : Collector W) : Bool := env.count c.window == 0

/-- The same live data under another definition. -/
def withDef (c : Collector W) (defn : CollectorDef) : Collector W := { c with defn }

def ingest (env : CollectorEnv W Span) (c : Collector W) (span : Span) : Collector W :=
  { c with window := env.ingest c.defn span c.window }

/-- A view that disturbs nothing. -/
def snapshot (c : Collector W) : CollectorSnapshot W :=
  { defn := c.defn, window := c.window, armedAt := c.armedAt, zeroedAt := c.zeroedAt }

/-- What `swap` leaves behind: an empty window, zeroed now. What it returns
is the `snapshot` from before. -/
def swap (env : CollectorEnv W Span) (c : Collector W) (now : ℤ) : Collector W :=
  { c with window := env.fresh c.defn, zeroedAt := some now }

theorem isZeroed_swap (env : CollectorEnv W Span) (c : Collector W) (now : ℤ) :
    (c.swap env now).isZeroed env = true := by
  simp [isZeroed, swap, env.count_fresh]

end Collector

/-! ### Span loss -/

/-- The three ways a span is lost before it reaches a collector. -/
structure TraceIngestLoss where
  dropped : ℕ
  shedBatches : ℕ
  malformed : ℕ
  deriving DecidableEq

namespace TraceIngestLoss

/-- The loss between two readings of the same counters, saturating. -/
def since (self baseline : TraceIngestLoss) : TraceIngestLoss where
  dropped := self.dropped - baseline.dropped
  shedBatches := self.shedBatches - baseline.shedBatches
  malformed := self.malformed - baseline.malformed

instance : Zero TraceIngestLoss := ⟨⟨0, 0, 0⟩⟩

instance : Add TraceIngestLoss :=
  ⟨fun a b => ⟨a.dropped + b.dropped, a.shedBatches + b.shedBatches, a.malformed + b.malformed⟩⟩

@[ext] theorem ext' {a b : TraceIngestLoss} (h1 : a.dropped = b.dropped) (h2 : a.shedBatches = b.shedBatches)
    (h3 : a.malformed = b.malformed) : a = b := by
  cases a
  cases b
  simp_all

@[simp] theorem add_dropped (a b : TraceIngestLoss) : (a + b).dropped = a.dropped + b.dropped := rfl

@[simp] theorem add_shedBatches (a b : TraceIngestLoss) :
    (a + b).shedBatches = a.shedBatches + b.shedBatches := rfl

@[simp] theorem add_malformed (a b : TraceIngestLoss) : (a + b).malformed = a.malformed + b.malformed := rfl

@[simp] theorem zero_dropped : (0 : TraceIngestLoss).dropped = 0 := rfl

@[simp] theorem zero_shedBatches : (0 : TraceIngestLoss).shedBatches = 0 := rfl

@[simp] theorem zero_malformed : (0 : TraceIngestLoss).malformed = 0 := rfl

protected theorem add_zero (a : TraceIngestLoss) : a + 0 = a := by ext <;> simp

protected theorem zero_add (a : TraceIngestLoss) : 0 + a = a := by ext <;> simp

protected theorem add_assoc (a b c : TraceIngestLoss) : a + b + c = a + (b + c) := by
  ext <;> simp [Nat.add_assoc]

/-- Nothing saturates when the reading is the baseline and more. -/
theorem add_since (a b : TraceIngestLoss) : (a + b).since a = b := by
  ext <;> simp [since]

end TraceIngestLoss

/-- The two transports a span can arrive on. -/
inductive TraceTransport
  | otlpHttp
  | otlpGrpc
  deriving DecidableEq

/-- Which counter a lost span, or a refused body, moves. -/
inductive LossKind
  | dropped
  | shedBatch
  | malformed
  deriving DecidableEq

/-- The trace counters of a domain's receivers. -/
structure ReceiverMetrics where
  otlpHttpTraces : ℕ
  otlpGrpcTraces : ℕ
  otlpHttpTracesShed : ℕ
  otlpGrpcTracesShed : ℕ
  otlpHttpTracesMalformed : ℕ
  otlpGrpcTracesMalformed : ℕ
  deriving DecidableEq

namespace ReceiverMetrics

def new : ReceiverMetrics := ⟨0, 0, 0, 0, 0, 0⟩

/-- `record_drop`, for the two trace sources. -/
def recordDrop (m : ReceiverMetrics) : TraceTransport → ReceiverMetrics
  | .otlpHttp => { m with otlpHttpTraces := m.otlpHttpTraces + 1 }
  | .otlpGrpc => { m with otlpGrpcTraces := m.otlpGrpcTraces + 1 }

def recordTraceBatchShed (m : ReceiverMetrics) : TraceTransport → ReceiverMetrics
  | .otlpHttp => { m with otlpHttpTracesShed := m.otlpHttpTracesShed + 1 }
  | .otlpGrpc => { m with otlpGrpcTracesShed := m.otlpGrpcTracesShed + 1 }

def recordTraceMalformed (m : ReceiverMetrics) : TraceTransport → ReceiverMetrics
  | .otlpHttp => { m with otlpHttpTracesMalformed := m.otlpHttpTracesMalformed + 1 }
  | .otlpGrpc => { m with otlpGrpcTracesMalformed := m.otlpGrpcTracesMalformed + 1 }

/-- Span loss across both OTLP trace transports. -/
def traceIngestLoss (m : ReceiverMetrics) : TraceIngestLoss where
  dropped := m.otlpHttpTraces + m.otlpGrpcTraces
  shedBatches := m.otlpHttpTracesShed + m.otlpGrpcTracesShed
  malformed := m.otlpHttpTracesMalformed + m.otlpGrpcTracesMalformed

/-- One loss on one transport. -/
def record (m : ReceiverMetrics) : LossKind → TraceTransport → ReceiverMetrics
  | .dropped, t => m.recordDrop t
  | .shedBatch, t => m.recordTraceBatchShed t
  | .malformed, t => m.recordTraceMalformed t

end ReceiverMetrics

/-- One loss of a kind, as the counters sum it. -/
def LossKind.one : LossKind → TraceIngestLoss
  | .dropped => ⟨1, 0, 0⟩
  | .shedBatch => ⟨0, 1, 0⟩
  | .malformed => ⟨0, 0, 1⟩

theorem ReceiverMetrics.record_loss (m : ReceiverMetrics) (k : LossKind) (t : TraceTransport) :
    (m.record k t).traceIngestLoss = m.traceIngestLoss + k.one := by
  cases k <;> cases t <;> ext <;>
    simp [record, recordDrop, recordTraceBatchShed, recordTraceMalformed, traceIngestLoss, LossKind.one] <;> omega

/-! ### Recorded runs -/

/-- Snapshots retained per collector before the oldest is evicted. -/
def maxSnapshots : ℕ := 50

/-- What a snapshot keeps beyond its core. -/
structure SnapshotPolicy where
  perName : Bool
  perGroup : Bool
  projections : Bool
  deriving DecidableEq

/-- A policy asking for more than the level can produce is an error. -/
def SnapshotPolicy.validate (p : SnapshotPolicy) (level : SampleLevel) : Except String Unit :=
  if p.projections && !level.hasSamples then
    .error ("snapshot policy asks for `projections`, but level `" ++ level.asStr ++
      "` retains no per-span records to project from; use level `timing` or above, or set projections: false")
  else .ok ()

/-- One recorded run. -/
structure StoredSnapshot (W : Type) where
  label : String
  description : Option String
  metaText : String
  takenAt : ℤ
  defn : CollectorDef
  policy : SnapshotPolicy
  windowStart : ℤ
  window : W
  ingest : Option TraceIngestLoss
  deriving DecidableEq

def StoredSnapshot.fromView (label : String) (description : Option String) (metaText : String) (takenAt : ℤ)
    (policy : SnapshotPolicy) (view : CollectorSnapshot W) (ingest : Option TraceIngestLoss) : StoredSnapshot W :=
  { label, description, metaText, takenAt, defn := view.defn, policy, windowStart := view.windowStart,
    window := view.window, ingest }

inductive HistoryError
  | duplicateLabel (label : String)
  | invalidLabel (label : String)
  deriving DecidableEq

/-- Label allocation and eviction for one collector. -/
structure History (W : Type) where
  snapshots : List (StoredSnapshot W)
  nextAuto : ℕ
  evicted : ℕ
  max : ℕ
  deriving DecidableEq

def isValidLabel (label : String) : Bool :=
  !label.isEmpty && label.toList.all fun c => c.isAlphanum || c == '.' || c == '_' || c == '-'

namespace History

def withMax (max : ℕ) : History W := { snapshots := [], nextAuto := 1, evicted := 0, max := Nat.max max 1 }

def new : History W := withMax maxSnapshots

def hasLabel (h : History W) (label : String) : Bool := h.snapshots.any fun s => s.label == label

/-- `format!("snapshot-{}", n)`. -/
def autoName (n : ℕ) : String := "snapshot-" ++ toString n

/-- The loop of `reserve_label`: the label found and the number after it. It
meets at most as many taken labels as there are snapshots, so `fuel` starts
at that many and the loop's end is never cut short (`autoLabel_fresh`). -/
def autoLabel (h : History W) : ℕ → ℕ → String × ℕ
  | 0, n => (autoName n, n + 1)
  | fuel + 1, n => if h.hasLabel (autoName n) then h.autoLabel fuel (n + 1) else (autoName n, n + 1)

/-- Reserve a label, auto-generating one when none is given. -/
def reserveLabel (h : History W) : Option String → Except HistoryError (String × History W)
  | some l =>
    if !isValidLabel l then .error (.invalidLabel l)
    else if h.hasLabel l then .error (.duplicateLabel l)
    else .ok (l, h)
  | none => .ok ((h.autoLabel h.snapshots.length h.nextAuto).1,
      { h with nextAuto := (h.autoLabel h.snapshots.length h.nextAuto).2 })

/-- The loop of `push`: drop the oldest while over the cap, counting. -/
def trim (max : ℕ) : List (StoredSnapshot W) → ℕ → List (StoredSnapshot W) × ℕ
  | [], evicted => ([], evicted)
  | s :: rest, evicted => if (s :: rest).length > max then trim max rest (evicted + 1) else (s :: rest, evicted)

def push (h : History W) (snap : StoredSnapshot W) : History W :=
  { h with snapshots := (trim h.max (h.snapshots ++ [snap]) h.evicted).1,
           evicted := (trim h.max (h.snapshots ++ [snap]) h.evicted).2 }

theorem autoName_inj {m n : ℕ} (h : autoName m = autoName n) : m = n := by
  have hdigits : (toString m).toList = (toString n).toList := by
    have := congrArg String.toList h
    rwa [autoName, autoName, String.toList_append, String.toList_append, List.append_cancel_left_eq] at this
  simpa [Nat.toString_eq_ofList_toDigits] using congrArg (Nat.ofDigitChars 10 · 0) hdigits

/-- If the loop ends on a taken label, it has met `fuel + 1` of them. -/
theorem taken_of_autoLabel (h : History W) : ∀ (fuel n : ℕ), h.hasLabel (h.autoLabel fuel n).1 = true →
    ∀ k ≤ fuel, h.hasLabel (autoName (n + k)) = true
  | 0, n, ht, k, hk => by
    obtain rfl : k = 0 := by omega
    exact ht
  | fuel + 1, n, ht, k, hk => by
    unfold autoLabel at ht
    split at ht
    · rename_i hn
      cases k with
      | zero => exact hn
      | succ k =>
        have := taken_of_autoLabel h fuel (n + 1) ht k (by omega)
        rwa [show n + 1 + k = n + (k + 1) by omega] at this
    · rename_i hn
      exact absurd ht hn

/-- **An automatic label is free**: there are fewer snapshots than names the
loop may try. -/
theorem autoLabel_fresh (h : History W) (n : ℕ) : h.hasLabel (h.autoLabel h.snapshots.length n).1 = false := by
  by_contra hne
  have ht := taken_of_autoLabel h _ n (by simpa using hne)
  have hnodup : ((List.range (h.snapshots.length + 1)).map fun k => autoName (n + k)).Nodup := by
    refine List.Nodup.map (fun a b hab => ?_) List.nodup_range
    have := autoName_inj hab
    omega
  have hsub : ((List.range (h.snapshots.length + 1)).map fun k => autoName (n + k)) ⊆
      h.snapshots.map StoredSnapshot.label := by
    intro l hl
    obtain ⟨k, hk, rfl⟩ := List.mem_map.mp hl
    obtain ⟨s, hs, hsl⟩ := List.any_eq_true.mp (ht k (by have := List.mem_range.mp hk; omega))
    exact List.mem_map.mpr ⟨s, hs, by simpa using hsl⟩
  have hlen := (hnodup.subperm hsub).length_le
  simp only [List.length_map, List.length_range] at hlen
  omega

end History

end Logmon
