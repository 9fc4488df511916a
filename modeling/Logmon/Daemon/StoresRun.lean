/-
# Runs of a domain's two stores

A domain's log side and its span ring over the counter they share: entries
and spans arrive in any order, sessions change, either store is cleared. The
log side is a `LogRun`, the ring a `SpanRun` whose counter is the log
pipeline's; both keep their invariants, and no log and span have a seq in
common (`StoresRun.Inv`), while the `u64` counter has not wrapped.

Key definitions: `StoresRun`, `StoresAct`, `StoresRun.step`, `StoresRun.Inv`.
Key theorems: `StoresRun.Inv.step`, `StoresRun.Inv.nodup_seqs`.
-/
import Logmon.Daemon.LogRun
import Logmon.Span.Ring

namespace Logmon

open Lib

/-- A domain's two stores, with what has arrived in each. -/
structure StoresRun where
  log : LogRun
  spans : SpanRun

inductive StoresAct
  | arrive (entry : LogEntry)
  | configure (sessions : SessionRegistry)
  | resizePreBuffer (size : ℕ)
  | clearLogs
  | span (span : SpanEntry)
  | clearSpans

/-- What the action is to the log side. -/
def StoresAct.onLog : StoresAct → Option LogAct
  | .arrive entry => some (.arrive entry)
  | .configure sessions => some (.configure sessions)
  | .resizePreBuffer size => some (.resizePreBuffer size)
  | .clearLogs => some .clear
  | .span _ => some .span
  | .clearSpans => none

/-- What the action is to the span ring. -/
def StoresAct.onSpans : StoresAct → Option SpanAct
  | .span x => some (.insert x)
  | .clearSpans => some .clear
  | _ => none

namespace StoresRun

def new (capacity : ℕ) (h : capacity ≤ u64Max) (spanCapacity initialSeq : ℕ) : StoresRun :=
  ⟨.new capacity h initialSeq, .start spanCapacity initialSeq⟩

/-- The span side over the counter as it stands. -/
def synced (s : StoresRun) : SpanRun := { s.spans with ring := { s.spans.ring with counter := s.log.pipeline.seq } }

def step (E : TextEnv) (domain : DomainId) (s : StoresRun) (a : StoresAct) : Option StoresRun :=
  (match a.onLog with
    | some act => s.log.step E domain act
    | none => some s.log).map fun log =>
      ⟨log, match a.onSpans with
        | some act => s.synced.step act
        | none => s.spans⟩

/-- The action does not wrap the seq counter. -/
def counts (s : StoresRun) (a : StoresAct) : Prop := ∀ act, a.onLog = some act → s.log.counts act

instance (s : StoresRun) (a : StoresAct) : Decidable (s.counts a) :=
  match h : a.onLog with
  | none => .isTrue fun act hact => by rw [h] at hact; cases hact
  | some act => decidable_of_iff (s.log.counts act)
      ⟨fun hc b hb => by rw [h] at hb; exact Option.some.inj hb ▸ hc, fun hc => hc act h⟩

structure Inv (s : StoresRun) : Prop where
  log : s.log.Inv
  spans : s.synced.Inv
  apart : ∀ y ∈ s.log.arrived, ∀ x ∈ s.spans.stored, y.seq ≠ x.seq

theorem inv_new (capacity : ℕ) (h : capacity ≤ u64Max) (spanCapacity initialSeq : ℕ) :
    (new capacity h spanCapacity initialSeq).Inv where
  log := LogRun.inv_new capacity h initialSeq
  spans := SpanRun.inv_start spanCapacity initialSeq
  apart _ hy := nomatch hy

variable {E : TextEnv} {domain : DomainId} {s s' : StoresRun}

/-- The span side under a counter that others moved up. -/
theorem Inv.synced_mono (h : s.Inv) {log : LogRun} (hle : s.log.pipeline.seq ≤ log.pipeline.seq) :
    (synced ⟨log, s.spans⟩).Inv :=
  ⟨⟨h.spans.held, h.spans.floor, h.spans.index⟩, h.spans.asc, fun x hx => (h.spans.below x hx).trans hle⟩

/-- An action that brings no record leaves the counter and what arrived. -/
theorem Inv.quiet (h : s.Inv) {log : LogRun} (hlog : log.Inv) (hseq : log.pipeline.seq = s.log.pipeline.seq)
    (harrived : log.arrived = s.log.arrived) : Inv ⟨log, s.spans⟩ :=
  ⟨hlog, h.synced_mono hseq.ge, by rw [harrived]; exact h.apart⟩

theorem Inv.arrive (h : s.Inv) (hc : s.log.pipeline.seq < u64Max) {entry : LogEntry} {log : LogRun}
    (hs : s.log.step E domain (.arrive entry) = some log) : Inv ⟨log, s.spans⟩ := by
  have hlog : log.Inv := h.log.step (a := .arrive entry) hc hs
  have harrived : log.arrived = s.log.arrived ++ [assigned s.log.pipeline entry] := by
    obtain rfl := Option.some.inj hs
    rfl
  have hn : (assigned s.log.pipeline entry).seq = s.log.pipeline.seq + 1 := LogPipeline.nextSeq_eq hc
  have hle := hlog.assigned (assigned s.log.pipeline entry) (by rw [harrived]; simp)
  refine ⟨hlog, h.synced_mono (by omega), fun y hy x hx => ?_⟩
  rw [harrived] at hy
  rcases List.mem_append.mp hy with hy | hy
  · exact h.apart y hy x hx
  · have hbelow : x.seq ≤ s.log.pipeline.seq := h.spans.below x hx
    rw [List.mem_singleton.mp hy, hn]
    omega

theorem Inv.span (h : s.Inv) (hc : s.log.pipeline.seq < u64Max) (span : SpanEntry) {log : LogRun}
    (hs : s.log.step E domain .span = some log) : Inv ⟨log, s.synced.step (.insert span)⟩ := by
  have hlog : log.Inv := h.log.step (a := .span) hc hs
  obtain rfl := Option.some.inj hs
  have hspans := h.spans.insert hc span
  have hstored : (s.synced.step (.insert span)).stored = s.spans.stored ++ [s.synced.ring.stamp span] := by
    simp [SpanRun.stored, SpanRun.step, synced]
  have hn : (s.synced.ring.stamp span).seq = s.log.pipeline.seq + 1 := nextSeqOf_eq hc
  refine ⟨hlog, ⟨⟨hspans.held, hspans.floor, hspans.index⟩, hspans.asc, fun x hx => ?_⟩, fun y hy x hx => ?_⟩
  · show x.seq ≤ s.log.pipeline.nextSeq
    have hbelow := hspans.below x hx
    rwa [SpanRun.counter_insert] at hbelow
  · have hbelow : y.seq ≤ s.log.pipeline.seq := h.log.assigned y hy
    rw [hstored] at hx
    rcases List.mem_append.mp hx with hx | hx
    · exact h.apart y hy x hx
    · rw [List.mem_singleton.mp hx, hn]
      omega

theorem Inv.clearSpans (h : s.Inv) : Inv ⟨s.log, s.synced.step .clear⟩ := by
  have hspans := h.spans.clear
  have hstored : (s.synced.step .clear).stored = s.spans.stored := by simp [SpanRun.stored, SpanRun.step, synced]
  exact ⟨h.log, ⟨⟨hspans.held, hspans.floor, hspans.index⟩, hspans.asc, hspans.below⟩, by rw [hstored]; exact h.apart⟩

/-- **Every action keeps it.** -/
theorem Inv.step {a : StoresAct} (h : s.Inv) (hc : s.counts a) (hs : s.step E domain a = some s') : s'.Inv := by
  obtain ⟨log, hlog, rfl⟩ := Option.map_eq_some_iff.mp hs
  cases a with
  | arrive entry => exact h.arrive (hc _ rfl) hlog
  | configure sessions =>
    have hinv := h.log.step (hc _ rfl) hlog
    obtain rfl := Option.some.inj hlog
    exact h.quiet hinv rfl rfl
  | resizePreBuffer size =>
    have hinv := h.log.step (hc _ rfl) hlog
    obtain rfl := Option.some.inj hlog
    exact h.quiet hinv rfl rfl
  | clearLogs =>
    have hinv := h.log.step (hc _ rfl) hlog
    obtain rfl := Option.some.inj hlog
    exact h.quiet hinv rfl rfl
  | span span => exact h.span (hc _ rfl) span hlog
  | clearSpans =>
    obtain rfl := Option.some.inj hlog
    exact h.clearSpans

theorem inv_of_reach {capacity : ℕ} {hcap : capacity ≤ u64Max} {spanCapacity initialSeq : ℕ}
    (hr : Reach (step E domain) counts (new capacity hcap spanCapacity initialSeq) s) : s.Inv :=
  hr.invariant (inv_new _ _ _ _) fun _ _ _ h hg hs => h.step hg hs

/-- A run of the log side is one of both stores, for some spans. -/
theorem reach_of_log {init log : LogRun} (spans : SpanRun)
    (h : Reach (LogRun.step E domain) (fun _ _ => True) init log) :
    ∃ spans', Reach (step E domain) (fun _ _ => True) ⟨init, spans⟩ ⟨log, spans'⟩ := by
  induction h with
  | start => exact ⟨spans, .start⟩
  | @next log log' a _ _ hs ih =>
    obtain ⟨spans', hr⟩ := ih
    obtain ⟨act, hact⟩ : ∃ act : StoresAct, act.onLog = some a := by
      cases a with
      | arrive entry => exact ⟨.arrive entry, rfl⟩
      | configure sessions => exact ⟨.configure sessions, rfl⟩
      | resizePreBuffer size => exact ⟨.resizePreBuffer size, rfl⟩
      | clear => exact ⟨.clearLogs, rfl⟩
      | span => exact ⟨.span (spanWith "" ""), rfl⟩
    have hstep : step E domain ⟨log, spans'⟩ act = some ⟨log', match act.onSpans with
        | some act => (synced ⟨log, spans'⟩).step act
        | none => spans'⟩ := by
      unfold step
      rw [hact]
      show (log.step E domain a).map _ = _
      rw [hs]
      rfl
    exact ⟨_, .next hr trivial hstep⟩

/-- The held spans ascend. -/
theorem Inv.asc_spans (h : s.Inv) : Asc SpanEntry.seq s.spans.ring.buffer := h.spans.asc_buffer

/-- **Each seq has one holder**, over both stores. -/
theorem Inv.nodup_seqs (h : s.Inv) :
    (s.log.pipeline.store.entries.map LogEntry.seq ++ s.spans.ring.buffer.map SpanEntry.seq).Nodup := by
  refine List.nodup_append.mpr ⟨h.log.sound.wf.asc.nodup_keys, h.asc_spans.nodup_keys, ?_⟩
  rintro a ha b hb rfl
  obtain ⟨e, he, rfl⟩ := List.mem_map.mp ha
  obtain ⟨x, hx, heq⟩ := List.mem_map.mp hb
  obtain ⟨y, hy, hrec⟩ := h.log.sound.ring e he
  have hstored : x ∈ s.spans.stored := by
    have : x ∈ s.synced.gone ++ s.synced.ring.buffer := List.mem_append_right _ hx
    rwa [← h.spans.stored_eq] at this
  exact h.apart y hy x hstored (hrec.seq.symm.trans heq.symm)

/-! ### A sample run -/

/-- A call that failed after a quarter of a second. -/
def timedOut : SpanEntry where
  seq := 0
  traceId := 42
  spanId := 7
  parentSpanId := none
  startTime := 1785506527000000000
  endTime := 1785506527250000000
  durationBits := 0x406F400000000000
  name := "GET /orders"
  kind := .client
  serviceName := "checkout"
  status := .error "timeout"
  attributes := [("peer.service", .string "orders")]
  events := []
  seq_le := Nat.zero_le _

/-- A record and a span, then a record that a session's filter refuses and one
that it stores. -/
def narrowedLater : List StoresAct :=
  [.arrive (LogRun.entryAt .info "connected"), .span timedOut, .configure LogRun.errorsOnly,
    .arrive (LogRun.entryAt .info "tick"), .arrive (LogRun.entryAt .error "stalled")]

/-- The first record, as it is held. -/
def connectedAt1 : LogEntry := (LogRun.entryAt .info "connected").withSeq 1 (by decide)

/-- The last record, as it is held. -/
def stalledAt4 : LogEntry :=
  { (LogRun.entryAt .error "stalled").withSeq 4 (by decide) with matchedFilters := ["errors"] }

def timedOutAt2 : SpanEntry := { timedOut with seq := 2, seq_le := by decide }

/-- What that run leaves. -/
structure NarrowedLater (s : StoresRun) : Prop where
  seq : s.log.pipeline.seq = 4
  logs : s.log.pipeline.store.entries = [connectedAt1, stalledAt4]
  spans : s.spans.ring.buffer = [timedOutAt2]
  stretch : (s.log.pipeline.epochs.coverage 1 4).narrowed = [⟨3, 4, ["l>=ERROR"]⟩]

instance (s : StoresRun) : Decidable (NarrowedLater s) :=
  decidable_of_iff (s.log.pipeline.seq = 4 ∧ s.log.pipeline.store.entries = [connectedAt1, stalledAt4] ∧
      s.spans.ring.buffer = [timedOutAt2] ∧ (s.log.pipeline.epochs.coverage 1 4).narrowed = [⟨3, 4, ["l>=ERROR"]⟩])
    ⟨fun h => ⟨h.1, h.2.1, h.2.2.1, h.2.2.2⟩, fun h => ⟨h.seq, h.logs, h.spans, h.stretch⟩⟩

theorem reach_narrowedLater :
    ∃ s, Reach (StoresRun.step .ascii ⟨"default"⟩) counts (.new 4 (by decide) 4 0) s ∧ s.NarrowedLater :=
  reach_decided narrowedLater (by decide +kernel)

end StoresRun
end Logmon
