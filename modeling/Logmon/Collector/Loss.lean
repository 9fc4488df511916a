/-
# Whose loss a snapshot records

A snapshot records the span loss of its window as the difference of two
readings of the pinned domain's counters: now, and the entry's baseline. The
baseline is read when the collector is armed, reset, snapshotted with a reset
or edited structurally. An edit that only re-pins the collector, allowed while
it is zeroed, moves the counters and leaves the baseline, so the difference is
then of two domains: what the new one lost before the pin is charged to the
collector, or what it loses after is hidden (`ingest_loss_misattributed`).
Where every such re-pin happens to find the new counters at the old baseline,
a snapshot records what its domain lost since the later of the window's start
and the last re-pin (`ingest_loss_exact`).

Key definitions: `LossRun`, `lossOf`, `LossRun.rebased`.
Key theorems: `LossRun.Attributed.next`, `ingest_loss_exact`,
`ingest_loss_misattributed`.
-/
import Logmon.Collector.Keys

namespace Logmon

open Lib CollectorRegistry

variable {W Span : Type}

/-! ### Runs -/

/-- The registry and the counters, with a record of every increment and of
how many there had been when a collector's window began and when it was last
pinned. -/
structure LossRun (W : Type) where
  reg : CollectorRegistry W
  metrics : ℕ → ReceiverMetrics
  log : List (ℕ × LossKind)
  windowFrom : ℕ → ℕ
  pinnedFrom : ℕ → ℕ

/-- What can happen next; calls run to their end. -/
inductive LossAct (Span : Type)
  | add (owner : SessionName) (domain : DomainId) (defn : CollectorDef) (now : ℤ)
  | edit (owner : SessionName) (name : String) (change : CollectorEdit) (now : ℤ) (written : Except String Unit)
  | reset (owner : SessionName) (name : String) (now : ℤ)
  | snapshot (owner : SessionName) (req : SnapshotRequest)
  | lose (domain : DomainId) (kind : LossKind) (transport : TraceTransport)
  | span (domain : DomainId) (span : Span)

/-- The increments of the counters `m` among some. -/
def lossOf (m : ℕ) : List (ℕ × LossKind) → TraceIngestLoss
  | [] => 0
  | (m', k) :: rest => if m' = m then k.one + lossOf m rest else lossOf m rest

theorem lossOf_append (m : ℕ) : ∀ a b : List (ℕ × LossKind), lossOf m (a ++ b) = lossOf m a + lossOf m b
  | [], b => (TraceIngestLoss.zero_add _).symm
  | (m', k) :: a, b => by
    rw [List.cons_append, lossOf, lossOf, lossOf_append m a b]
    split
    · rw [TraceIngestLoss.add_assoc]
    · rfl

namespace LossRun

/-- No collector armed yet. -/
def start (total : ℕ) (metrics : ℕ → ReceiverMetrics) : LossRun W :=
  { reg := .withBudget total, metrics, log := [], windowFrom := fun _ => 0, pinnedFrom := fun _ => 0 }

def loss (s : LossRun W) (m : ℕ) : TraceIngestLoss := (s.metrics m).traceIngestLoss

/-- The id of `owner`'s collector called `name`. -/
def idOf (s : LossRun W) (owner : SessionName) (name : String) : Option ℕ :=
  (s.reg.entries.find? (Entry.isNamed owner name)).map Entry.id

/-- Write a mark for an id, at the present. -/
def mark (s : LossRun W) (marks : ℕ → ℕ) : Option ℕ → ℕ → ℕ
  | none => marks
  | some id => Function.update marks id s.log.length

/-- The edit pins `owner`'s collector called `name` to another domain. -/
def repins (s : LossRun W) (owner : SessionName) (name : String) (change : CollectorEdit) : Bool :=
  match change.domain, s.reg.entries.find? (Entry.isNamed owner name) with
  | some d, some e => d ≠ e.domain
  | _, _ => false

/-- `metricsOf` gives each domain its counters. A failed call changes
nothing. -/
def next (env : CollectorEnv W Span) (metricsOf : DomainId → ℕ) (s : LossRun W) : LossAct Span → LossRun W
  | .add owner domain defn now =>
    match s.reg.add env s.loss owner domain (metricsOf domain) defn now with
    | .error _ => s
    | .ok (r, e) => { s with reg := r, windowFrom := s.mark s.windowFrom (some e.id),
                             pinnedFrom := s.mark s.pinnedFrom (some e.id) }
  | .edit owner name change now written =>
    match s.reg.edit env s.loss owner name change (change.domain.map metricsOf) now written with
    | .error _ => s
    | .ok (r, out) =>
      { s with reg := r
               windowFrom := if out.zeroed then s.mark s.windowFrom (s.idOf owner name) else s.windowFrom
               pinnedFrom :=
                 if s.repins owner name change then s.mark s.pinnedFrom (s.idOf owner name) else s.pinnedFrom }
  | .reset owner name now =>
    match s.reg.reset env s.loss owner name now with
    | .error _ => s
    | .ok (r, _) => { s with reg := r, windowFrom := s.mark s.windowFrom (s.idOf owner name) }
  | .snapshot owner req =>
    match s.reg.snapshot env s.loss owner req with
    | .error _ => s
    | .ok (r, _) => { s with reg := r, windowFrom :=
        if req.reset then s.mark s.windowFrom (s.idOf owner req.name) else s.windowFrom }
  | .lose domain k t =>
    { s with metrics := Function.update s.metrics (metricsOf domain) ((s.metrics (metricsOf domain)).record k t),
             log := s.log ++ [(metricsOf domain, k)] }
  | .span domain span => { s with reg := s.reg.ingestSpan env domain span }

/-- An edit that succeeds, pins a collector to another domain and keeps its
window finds the new domain's counters at the collector's baseline. -/
def rebased (env : CollectorEnv W Span) (metricsOf : DomainId → ℕ) (s : LossRun W) : LossAct Span → Bool
  | .edit owner name change now written =>
    match s.reg.edit env s.loss owner name change (change.domain.map metricsOf) now written, change.domain,
        s.reg.entries.find? (Entry.isNamed owner name) with
    | .ok _, some d, some e =>
      d = e.domain || change.isStructural e.collector.defn || s.loss (metricsOf d) == e.ingestBaseline
    | _, _, _ => true
  | _ => true

/-! ### The baseline along a run -/

/-- The later of the window's start and the last pin, as a number of
increments. -/
def from_ (s : LossRun W) (id : ℕ) : ℕ := max (s.windowFrom id) (s.pinnedFrom id)

/-- The entry's counters are its domain's, and its baseline is what they read
at the later of its two marks. -/
structure Based (metricsOf : DomainId → ℕ) (first : ℕ → TraceIngestLoss) (s : LossRun W) (e : Entry W) : Prop where
  pinned : e.metrics = metricsOf e.domain
  baseline : e.ingestBaseline = first e.metrics + lossOf e.metrics (s.log.take (s.from_ e.id))

/-- What holds in every state of a run that started from the readings
`first`. -/
structure Attributed (metricsOf : DomainId → ℕ) (first : ℕ → TraceIngestLoss) (s : LossRun W) : Prop where
  distinct : s.reg.Distinct
  read : ∀ m, s.loss m = first m + lossOf m s.log
  windowFrom_le : ∀ id, s.windowFrom id ≤ s.log.length
  pinnedFrom_le : ∀ id, s.pinnedFrom id ≤ s.log.length
  based : ∀ e ∈ s.reg.entries, Based metricsOf first s e

variable {env : CollectorEnv W Span} {metricsOf : DomainId → ℕ} {first : ℕ → TraceIngestLoss} {s : LossRun W}

theorem mark_le {marks : ℕ → ℕ} (h : ∀ id, marks id ≤ s.log.length) (o : Option ℕ) (id : ℕ) :
    s.mark marks o id ≤ s.log.length := by
  cases o with
  | none => exact h id
  | some id' =>
    by_cases hid : id = id'
    · simp [mark, hid]
    · simpa [mark, Function.update_of_ne hid] using h id

theorem mark_ne {marks : ℕ → ℕ} {id id' : ℕ} (hid : id ≠ id') : s.mark marks (some id') id = marks id := by
  simp [mark, Function.update_of_ne hid]

theorem mark_self {marks : ℕ → ℕ} {id : ℕ} : s.mark marks (some id) id = s.log.length := by
  simp [mark]

theorem idOf_eq {owner : SessionName} {name : String} {e : Entry W}
    (h : s.reg.entries.find? (Entry.isNamed owner name) = some e) : s.idOf owner name = some e.id := by
  simp [idOf, h]

/-- At the present, the baseline is the reading. -/
theorem Attributed.baseline_now (h : Attributed metricsOf first s) {k : ℕ} (hk : k = s.log.length) (m : ℕ) :
    s.loss m = first m + lossOf m (s.log.take k) := by
  rw [hk, List.take_length]
  exact h.read m

theorem Attributed.from_le (h : Attributed metricsOf first s) (id : ℕ) : s.from_ id ≤ s.log.length :=
  Nat.max_le.mpr ⟨h.windowFrom_le id, h.pinnedFrom_le id⟩

/-- One entry is replaced, its marks perhaps with it. -/
theorem Attributed.modify (h : Attributed metricsOf first s) {p : Entry W → Bool} {f : Entry W → Entry W} {a : Entry W}
    (hfind : s.reg.entries.find? p = some a) {r : CollectorRegistry W} (hr : r.entries = modifyFirst p f s.reg.entries)
    (hdistinct : r.Distinct) {w q : ℕ → ℕ} (hw : ∀ id, w id ≤ s.log.length) (hq : ∀ id, q id ≤ s.log.length)
    (hother : ∀ id, id ≠ a.id → w id = s.windowFrom id ∧ q id = s.pinnedFrom id)
    (hnew : Based metricsOf first { s with reg := r, windowFrom := w, pinnedFrom := q } (f a)) :
    Attributed metricsOf first { s with reg := r, windowFrom := w, pinnedFrom := q } := by
  refine ⟨hdistinct, h.read, hw, hq, fun e he => ?_⟩
  rw [show CollectorRegistry.entries _ = _ from hr] at he
  rcases h.distinct.mem_modifyFirst hfind he with rfl | ⟨he, hne⟩
  · exact hnew
  · obtain ⟨hpin, hbase⟩ := h.based e he
    obtain ⟨h1, h2⟩ := hother e.id hne
    refine ⟨hpin, ?_⟩
    rw [hbase]
    show _ = first e.metrics + lossOf e.metrics (s.log.take (max (w e.id) (q e.id)))
    rw [h1, h2]
    rfl

theorem Attributed.edit (h : Attributed metricsOf first s) {owner : SessionName} {name : String}
    {change : CollectorEdit} {now : ℤ} {written : Except String Unit}
    (hgood : s.rebased env metricsOf (.edit owner name change now written) = true) :
    Attributed metricsOf first (s.next env metricsOf (.edit owner name change now written)) := by
  simp only [next]
  split
  · exact h
  rename_i r out hedit
  simp only [rebased, hedit] at hgood
  unfold CollectorRegistry.edit at hedit
  split at hedit
  · simp at hedit
  rename_i p hcheck
  split at hedit
  · simp at hedit
  obtain ⟨e, hc⟩ := editCheck_ok hcheck
  obtain ⟨e', he', hr⟩ := editApply_ok hedit
  have hzeroed : out.zeroed = p.structural := by
    unfold editApply at hedit
    split at hedit
    · simp at hedit
    · simp only [Except.ok.injEq, Prod.mk.injEq] at hedit
      rw [← hedit.2]
  -- the collector applied to is the one checked
  have hmem := (find?_mem hc.found).1
  obtain ⟨hmem', hheld⟩ := find?_mem he'
  obtain rfl : e' = e := h.distinct.unique hmem' hmem ((Entry.isHeld_iff.mp hheld).1.trans hc.id)
  have hkeys := keys_editApply hedit fun o n hk => by
    rw [hc.id] at hk
    rw [(h.distinct.names hmem).2 o n hk, hc.defName]
  obtain ⟨hpin, hbase⟩ := h.based e' hmem
  have htarget := editDomain_ok hc.domain
  have hmetrics : p.newMetrics.getD e'.metrics = metricsOf p.targetDomain := by
    rw [hc.newMetrics, htarget]
    cases change.domain with
    | none => exact hpin
    | some d => rfl
  have hid := idOf_eq hc.found
  rw [hzeroed, hid]
  have hw : ∀ id, (if p.structural then s.mark s.windowFrom (some e'.id) else s.windowFrom) id ≤ s.log.length := by
    intro id
    split
    · exact mark_le h.windowFrom_le _ id
    · exact h.windowFrom_le id
  have hq : ∀ id, (if s.repins owner name change then s.mark s.pinnedFrom (some e'.id) else s.pinnedFrom) id ≤
      s.log.length := by
    intro id
    split
    · exact mark_le h.pinnedFrom_le _ id
    · exact h.pinnedFrom_le id
  refine h.modify he' (by rw [hr]) (h.distinct.of_eq hkeys) hw hq (fun id hne => ⟨?_, ?_⟩) ?_
  · split
    · exact mark_ne hne
    · rfl
  · split
    · exact mark_ne hne
    · rfl
  have hw' := hw e'.id
  have hq' := hq e'.id
  cases hst : p.structural with
  | true =>
    refine ⟨by simpa [edited, hst] using hmetrics, ?_⟩
    simp only [edited, hst, if_true] at hw' ⊢
    refine h.baseline_now ?_ _
    show max (s.mark s.windowFrom (some e'.id) e'.id) _ = _
    rw [mark_self]
    exact Nat.max_eq_left hq'
  | false =>
    refine ⟨by simpa [edited, hst] using hmetrics, ?_⟩
    simp only [edited, hst, Bool.false_eq_true, if_false] at hw' ⊢
    cases hrepins : s.repins owner name change with
    | false =>
      have hsame : p.targetDomain = e'.domain := by
        cases hd : change.domain with
        | none => rw [htarget, hd]; rfl
        | some d =>
          rw [htarget, hd]
          simpa [repins, hd, hc.found] using hrepins
      rw [hmetrics, hsame, ← hpin]
      exact hbase
    | true =>
      -- the domain moved and the window stayed: the readings have to agree
      have hstr : change.isStructural e'.collector.defn = false := hc.structural.symm.trans hst
      have hagree : s.loss (metricsOf p.targetDomain) = e'.ingestBaseline := by
        cases hd : change.domain with
        | none => simp [repins, hd] at hrepins
        | some d =>
          have hne : d ≠ e'.domain := by simpa [repins, hd, hc.found] using hrepins
          rw [htarget, hd]
          simpa [hd, hc.found, hstr, hne] using hgood
      rw [hmetrics, ← hagree]
      refine h.baseline_now ?_ _
      show max (s.windowFrom e'.id) (s.mark s.pinnedFrom (some e'.id) e'.id) = _
      rw [mark_self]
      exact Nat.max_eq_right hw'

/-- The window of one entry starts afresh, on its own counters. -/
theorem Attributed.zero (h : Attributed metricsOf first s) {owner : SessionName} {name : String} {e : Entry W}
    (hfind : s.reg.entries.find? (Entry.isNamed owner name) = some e) {f : Entry W → Entry W}
    {r : CollectorRegistry W} (hr : r.entries = modifyFirst (Entry.isNamed owner name) f s.reg.entries)
    (hdistinct : r.Distinct) (hid : (f e).id = e.id) (hdomain : (f e).domain = e.domain)
    (hmetrics : (f e).metrics = e.metrics) (hbase : (f e).ingestBaseline = s.loss e.metrics) :
    Attributed metricsOf first
      { s with reg := r, windowFrom := s.mark s.windowFrom (s.idOf owner name), pinnedFrom := s.pinnedFrom } := by
  have hb := h.based e (find?_mem hfind).1
  refine h.modify hfind hr hdistinct (mark_le h.windowFrom_le _) h.pinnedFrom_le (fun id hne => ⟨?_, rfl⟩) ⟨?_, ?_⟩
  · rw [idOf_eq hfind]
    exact mark_ne hne
  · rw [hmetrics, hdomain]
    exact hb.pinned
  · rw [hbase, hmetrics]
    refine h.baseline_now ?_ _
    show max (s.mark s.windowFrom (s.idOf owner name) (f e).id) (s.pinnedFrom (f e).id) = _
    rw [hid, idOf_eq hfind, mark_self]
    exact Nat.max_eq_left (h.pinnedFrom_le e.id)

/-- An entry changes in nothing that bears on its loss. -/
theorem Attributed.keep (h : Attributed metricsOf first s) {p : Entry W → Bool} {f : Entry W → Entry W} {e : Entry W}
    (hfind : s.reg.entries.find? p = some e) {r : CollectorRegistry W}
    (hr : r.entries = modifyFirst p f s.reg.entries) (hdistinct : r.Distinct) (hid : (f e).id = e.id)
    (hdomain : (f e).domain = e.domain) (hmetrics : (f e).metrics = e.metrics)
    (hbase : (f e).ingestBaseline = e.ingestBaseline) : Attributed metricsOf first { s with reg := r } := by
  have hb := h.based e (find?_mem hfind).1
  refine h.modify hfind hr hdistinct h.windowFrom_le h.pinnedFrom_le (fun _ _ => ⟨rfl, rfl⟩) ⟨?_, ?_⟩
  · rw [hmetrics, hdomain]
    exact hb.pinned
  · rw [hbase, hmetrics]
    show _ = first e.metrics + lossOf e.metrics (s.log.take (max (s.windowFrom (f e).id) (s.pinnedFrom (f e).id)))
    rw [hid]
    exact hb.baseline

theorem Attributed.snapshotFile (h : Attributed metricsOf first s) (t : TakenSnapshot W) :
    Attributed metricsOf first { s with reg := (s.reg.snapshotFile t).1 } := by
  have hd := h.distinct.of_eq (keys_snapshotFile t)
  unfold CollectorRegistry.snapshotFile at hd ⊢
  split
  · exact h
  · rename_i e he
    rw [he] at hd
    exact h.keep he rfl hd rfl rfl rfl rfl

theorem Attributed.snapshot (h : Attributed metricsOf first s) (owner : SessionName) (req : SnapshotRequest) :
    Attributed metricsOf first (s.next env metricsOf (.snapshot owner req)) := by
  simp only [next]
  split
  · exact h
  rename_i r snap hsnap
  unfold CollectorRegistry.snapshot at hsnap
  split at hsnap
  · simp at hsnap
  rename_i r1 t htake
  simp only [Except.ok.injEq, Prod.mk.injEq] at hsnap
  obtain ⟨rfl, rfl⟩ := hsnap
  have hd := h.distinct.of_eq (keys_snapshotTake htake)
  obtain ⟨e, label, hist, he, _, _, hr⟩ := snapshotTake_ok htake
  have htaken : Attributed metricsOf first { s with
      reg := r1
      windowFrom := if req.reset then s.mark s.windowFrom (s.idOf owner req.name) else s.windowFrom } := by
    cases hreset : req.reset with
    | true =>
      exact h.zero he (by rw [hr]) hd (by simp) (by simp) (by simp [takenFrom, hreset, zeroed])
        (by simp [takenFrom, hreset, zeroed])
    | false =>
      exact h.keep he (by rw [hr]) hd (by simp) (by simp) (by simp [takenFrom, hreset]) (by simp [takenFrom, hreset])
  exact htaken.snapshotFile t

/-- **A call or an increment keeps every baseline at its mark**, unless it
re-pins a collector to counters that read something else. -/
theorem Attributed.next (h : Attributed metricsOf first s) {a : LossAct Span} (hgood : s.rebased env metricsOf a = true) :
    Attributed metricsOf first (s.next env metricsOf a) := by
  cases a with
  | add owner domain defn now =>
    simp only [LossRun.next]
    split
    · exact h
    rename_i r e hadd
    obtain ⟨hk, hn, hid, _⟩ := keys_add hadd
    obtain ⟨_, _, he, hr⟩ := add_ok hadd
    have hbelow : ∀ e' ∈ s.reg.entries, e'.id ≠ e.id := fun e' he' => by
      have := h.distinct.below e'.id e'.owner e'.name (key_mem he')
      omega
    refine ⟨h.distinct.append hk hn, h.read, mark_le h.windowFrom_le (some e.id), mark_le h.pinnedFrom_le (some e.id),
      fun e' he' => ?_⟩
    rw [show CollectorRegistry.entries _ = _ from congrArg CollectorRegistry.entries hr] at he'
    rcases List.mem_append.mp he' with he' | he'
    · obtain ⟨hpin, hbase⟩ := h.based e' he'
      refine ⟨hpin, ?_⟩
      show _ = first e'.metrics + lossOf e'.metrics (s.log.take (max (s.mark s.windowFrom (some e.id) e'.id)
        (s.mark s.pinnedFrom (some e.id) e'.id)))
      rw [mark_ne (hbelow e' he'), mark_ne (hbelow e' he')]
      exact hbase
    · obtain rfl := List.mem_singleton.mp he'
      refine ⟨by rw [he]; rfl, ?_⟩
      rw [show e'.ingestBaseline = s.loss e'.metrics by rw [he]; rfl]
      refine h.baseline_now ?_ _
      show max (s.mark s.windowFrom (some e'.id) e'.id) (s.mark s.pinnedFrom (some e'.id) e'.id) = _
      rw [mark_self, mark_self, Nat.max_self]
  | edit owner name change now written => exact h.edit hgood
  | reset owner name now =>
    simp only [LossRun.next]
    split
    · exact h
    rename_i r v hreset
    obtain ⟨e, he, hr⟩ := reset_ok hreset
    exact h.zero he (by rw [hr]) (h.distinct.of_eq (keys_reset hreset)) rfl rfl rfl rfl
  | snapshot owner req => exact h.snapshot owner req
  | lose domain k t =>
    refine ⟨h.distinct, fun m => ?_, fun id => ?_, fun id => ?_, fun e he => ?_⟩
    · show (Function.update s.metrics _ _ m).traceIngestLoss = first m + lossOf m (s.log ++ [(metricsOf domain, k)])
      rw [lossOf_append, ← TraceIngestLoss.add_assoc, ← h.read m]
      by_cases hm : m = metricsOf domain
      · rw [hm, Function.update_self, ReceiverMetrics.record_loss]
        simp [lossOf, loss, TraceIngestLoss.add_zero]
      · rw [Function.update_of_ne hm]
        simp [lossOf, loss, Ne.symm hm, TraceIngestLoss.add_zero]
    · exact Nat.le_trans (h.windowFrom_le id) (by simp [LossRun.next])
    · exact Nat.le_trans (h.pinnedFrom_le id) (by simp [LossRun.next])
    · obtain ⟨hpin, hbase⟩ := h.based e he
      refine ⟨hpin, hbase.trans ?_⟩
      -- the mark lies in the old part of the record
      show _ = first e.metrics + lossOf e.metrics ((s.log ++ [(metricsOf domain, k)]).take (s.from_ e.id))
      rw [List.take_append_of_le_length (h.from_le e.id)]
  | span domain span =>
    refine ⟨h.distinct.of_eq (keys_ingestSpan env domain span), h.read, h.windowFrom_le, h.pinnedFrom_le, ?_⟩
    intro e' he'
    obtain ⟨e, he, rfl⟩ := List.mem_map.mp he'
    obtain ⟨hpin, hbase⟩ := h.based e he
    split
    · exact ⟨hpin, hbase⟩
    · exact ⟨hpin, hbase⟩

/-- The run as a step system. -/
def step (env : CollectorEnv W Span) (metricsOf : DomainId → ℕ) (s : LossRun W) (a : LossAct Span) :
    Option (LossRun W) := some (s.next env metricsOf a)

/-- What a snapshot of `owner`'s collector called `name` should record: what
the domain it is pinned to has lost since the later of the start of its
window and its last pin. -/
def expected (metricsOf : DomainId → ℕ) (s : LossRun W) (e : Entry W) : TraceIngestLoss :=
  lossOf (metricsOf e.domain) (s.log.drop (s.from_ e.id))

end LossRun

open LossRun

/-- **A snapshot records its domain's loss**, in every state of every run in
which a re-pin that keeps the window finds the new counters at the
collector's baseline. -/
theorem ingest_loss_exact (env : CollectorEnv W Span) (metricsOf : DomainId → ℕ) (total : ℕ)
    (metrics : ℕ → ReceiverMetrics) {s : LossRun W}
    (hreach : Reach (LossRun.step env metricsOf) (fun s a => s.rebased env metricsOf a = true)
      (LossRun.start total metrics) s)
    (owner : SessionName) (req : SnapshotRequest) (r : CollectorRegistry W) (snap : StoredSnapshot W)
    (hsnap : s.reg.snapshot env s.loss owner req = .ok (r, snap)) :
    ∃ e, s.reg.entries.find? (Entry.isNamed owner req.name) = some e ∧
      snap.ingest = some (s.expected metricsOf e) := by
  have h : Attributed metricsOf (fun m => (metrics m).traceIngestLoss) s := by
    refine hreach.invariant (I := Attributed metricsOf _) ⟨⟨by simp [LossRun.start, withBudget, keys],
      by simp [LossRun.start, withBudget, keys]⟩, fun m => (TraceIngestLoss.add_zero _).symm, fun _ => Nat.le_refl _,
      fun _ => Nat.le_refl _, by simp [LossRun.start, withBudget]⟩ ?_
    intro s a s' h hgood hs
    obtain rfl := Option.some.inj hs
    exact h.next hgood
  unfold CollectorRegistry.snapshot at hsnap
  split at hsnap
  · simp at hsnap
  rename_i r1 t htake
  simp only [Except.ok.injEq, Prod.mk.injEq] at hsnap
  obtain ⟨e, label, hist, he, _, ht, _⟩ := snapshotTake_ok htake
  obtain ⟨hpin, hbase⟩ := h.based e (find?_mem he).1
  refine ⟨e, he, ?_⟩
  rw [← hsnap.2, ht]
  show some ((s.loss e.metrics).since e.ingestBaseline) = _
  have hsplit : s.loss e.metrics = e.ingestBaseline + lossOf e.metrics (s.log.drop (s.from_ e.id)) := by
    rw [h.read, hbase, TraceIngestLoss.add_assoc, ← lossOf_append, List.take_append_drop]
  rw [hsplit, TraceIngestLoss.add_since, hpin]
  rfl

/-- Two domains, each with its own counters. -/
def metricsOfTwo (d : DomainId) : ℕ := if d.name = "b" then 1 else 0

/-- A collector is armed on `a`, after a loss on `a` and some on `b`, and
moved to `b`, which then loses some more. -/
def repinActs (o : SessionName) (before after : List LossKind) : List (LossAct Unit) :=
  .lose ⟨"a"⟩ .dropped .otlpHttp :: before.map (.lose ⟨"b"⟩ · .otlpHttp) ++
    [.add o ⟨"a"⟩ (.sample "c" 1) 0, .edit o "c" { CollectorEdit.default with domain := some ⟨"b"⟩ } 0 (.ok ())] ++
    after.map (.lose ⟨"b"⟩ · .otlpGrpc)

theorem ingest_loss_exact_repinned : ∃ (s : LossRun ℕ) (r : CollectorRegistry ℕ) (snap : StoredSnapshot ℕ),
    runActs (LossRun.step .counting metricsOfTwo) (LossRun.start 10 fun _ => .new)
      (repinActs ⟨"o", by decide⟩ [.dropped] [.shedBatch]) = some s ∧
    s.reg.snapshot .counting s.loss ⟨"o", by decide⟩ (.plain "c") = .ok (r, snap) ∧
    snap.ingest = some ⟨0, 1, 0⟩ ∧
    ∃ e, s.reg.entries.find? (Entry.isNamed ⟨"o", by decide⟩ "c") = some e ∧
      snap.ingest = some (s.expected metricsOfTwo e) := by
  refine ⟨_, _, _, rfl, rfl, by decide, ?_⟩
  exact ingest_loss_exact .counting metricsOfTwo 10 (fun _ => .new)
    (reach_guarded (fun _ _ h => h) (repinActs ⟨"o", by decide⟩ [.dropped] [.shedBatch]) .start rfl)
    ⟨"o", by decide⟩ (.plain "c") _ _ rfl

/-- Moved to a domain that had lost more, the collector is charged with that
loss; moved to one that had lost less, it does not see the next. -/
theorem ingest_loss_misattributed :
    (∃ (s : LossRun ℕ) (r : CollectorRegistry ℕ) (snap : StoredSnapshot ℕ) (e : Entry ℕ),
      runActs (LossRun.step .counting metricsOfTwo) (LossRun.start 10 fun _ => .new)
        (repinActs ⟨"o", by decide⟩ [.dropped, .dropped] []) = some s ∧
      s.reg.snapshot .counting s.loss ⟨"o", by decide⟩ (.plain "c") = .ok (r, snap) ∧
      s.reg.entries.find? (Entry.isNamed ⟨"o", by decide⟩ "c") = some e ∧
      snap.ingest = some ⟨1, 0, 0⟩ ∧ s.expected metricsOfTwo e = ⟨0, 0, 0⟩) ∧
    ∃ (s : LossRun ℕ) (r : CollectorRegistry ℕ) (snap : StoredSnapshot ℕ) (e : Entry ℕ),
      runActs (LossRun.step .counting metricsOfTwo) (LossRun.start 10 fun _ => .new)
        (repinActs ⟨"o", by decide⟩ [] [.dropped]) = some s ∧
      s.reg.snapshot .counting s.loss ⟨"o", by decide⟩ (.plain "c") = .ok (r, snap) ∧
      s.reg.entries.find? (Entry.isNamed ⟨"o", by decide⟩ "c") = some e ∧
      snap.ingest = some ⟨0, 0, 0⟩ ∧ s.expected metricsOfTwo e = ⟨1, 0, 0⟩ :=
  ⟨⟨_, _, _, _, rfl, rfl, rfl, by decide, by decide⟩, ⟨_, _, _, _, rfl, rfl, rfl, by decide, by decide⟩⟩

end Logmon
