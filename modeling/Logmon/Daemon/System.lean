/-
# The daemon's domains over its sessions

Each domain has a log pipeline of its own; the sessions are shared. Entries
and spans arrive in a domain, its logs are cleared, its pre-trigger buffer is
resized to its sessions' triggers, and sessions do what connections ask for.
Each is one step of the daemon.

A span is what `daemon/span_processor.rs` makes of one on the log side: it
takes a seq, counts in the triggers it matches and removes those that fire
once. Which filters it matches, a matter of `f64` durations too, and the event
a match sends are data of the span.

Key definitions: `IncomingSpan`, `processSpanForDomain`, `Daemon`,
`DaemonAct`, `Daemon.step`.
Key theorems: `processSpanForDomain_alike`, `processSpanForDomain_elsewhere`.
-/
import Logmon.Daemon.Turns
import Mathlib.Logic.Function.Basic

namespace Logmon

open Lib SessionRegistry

/-! ### Spans -/

/-- A span, under the seq it will be given. -/
structure IncomingSpan where
  /-- The filters for spans that match it. -/
  matched : (seq : ℕ) → ParsedFilter → Bool
  /-- `build_span_event`. -/
  event : (seq : ℕ) → SessionId → TriggerMatch → PipelineEvent

/-- Triggers that match a span count it. No window holds them back. -/
def TriggerManager.evaluateSpan (matched : ParsedFilter → Bool) (m : TriggerManager) :
    TriggerManager × List TriggerMatch :=
  ({ m with triggers := m.triggers.map fun t =>
      if matched t.condition then { t with matchCount := t.matchCount + 1 } else t },
   (m.triggers.filter fun t => matched t.condition).map Trigger.toMatch)

namespace SessionRegistry

def activeSessionIdsForDomain (s : SessionRegistry) (domain : DomainId) : List SessionId :=
  (s.sessions.entries.filter fun q => q.2.domain = domain).map Prod.fst

def evaluateSpanTriggers (s : SessionRegistry) (id : SessionId) (matched : ParsedFilter → Bool) :
    SessionRegistry × List TriggerMatch :=
  match s.get? id with
  | none => (s, [])
  | some state =>
    (s.modify id fun st => { st with triggers := (st.triggers.evaluateSpan matched).1 },
     (state.triggers.evaluateSpan matched).2)

end SessionRegistry

/-- One match of a span is queued and sent, and a oneshot trigger removed
after it. -/
def notifySpanMatch (event : TriggerMatch → PipelineEvent) (sid : SessionId) (x : LogPipeline × SessionRegistry)
    (m : TriggerMatch) : LogPipeline × SessionRegistry :=
  let s := x.2.sendOrQueueNotification sid (event m)
  (x.1.sendEvent (event m), if m.oneshot then s.removeTrigger sid m.id else s)

/-- What the loop over the sessions carries. -/
structure SpanTurns where
  pipeline : LogPipeline
  sessions : SessionRegistry
  anyOneshotRemoved : Bool

def spanTurn (matched : ParsedFilter → Bool) (event : SessionId → TriggerMatch → PipelineEvent) (x : SpanTurns)
    (sid : SessionId) : SpanTurns :=
  let (s, fired) := x.sessions.evaluateSpanTriggers sid matched
  let (p, s) := fired.foldl (notifySpanMatch (event sid) sid) (x.pipeline, s)
  ⟨p, s, x.anyOneshotRemoved || fired.any TriggerMatch.oneshot⟩

def processSpanForDomain (p : LogPipeline) (s : SessionRegistry) (domain : DomainId) (span : IncomingSpan) :
    LogPipeline × SessionRegistry :=
  let seq := p.nextSeq
  let x := (s.activeSessionIdsForDomain domain).foldl (spanTurn (span.matched seq) (span.event seq)) ⟨p.assignSeq, s, false⟩
  (if x.anyOneshotRemoved then syncPreBufferSizeForDomain x.pipeline x.sessions domain else x.pipeline, x.sessions)

/-! ### The daemon -/

structure Daemon where
  pipelines : DomainId → LogPipeline
  sessions : SessionRegistry
  /-- For each domain, what fired on each of its entries. -/
  fired : DomainId → List (List (SessionId × TriggerMatch))

inductive DaemonAct
  | arrive (domain : DomainId) (entry : LogEntry)
  | span (domain : DomainId) (span : IncomingSpan)
  | clear (domain : DomainId)
  /-- `sync_pre_buffer_size_for_domain`, after a request. -/
  | resync (domain : DomainId)
  | session (now : ℕ) (op : SessionOp)

namespace Daemon

section Step

variable (E : TextEnv) (parseFilter : String → Except String ParsedFilter)

def step (d : Daemon) : DaemonAct → Daemon
  | .arrive domain entry =>
    let (p, sessions) := processEntryForDomain E (d.pipelines domain) d.sessions domain entry
    let fired := firingsFor E (d.pipelines domain) d.sessions domain entry
    { pipelines := Function.update d.pipelines domain p
      sessions
      fired := Function.update d.fired domain (d.fired domain ++ [fired]) }
  | .span domain span =>
    let (p, sessions) := processSpanForDomain (d.pipelines domain) d.sessions domain span
    { d with pipelines := Function.update d.pipelines domain p, sessions }
  | .clear domain =>
    { d with pipelines := Function.update d.pipelines domain (d.pipelines domain).clearLogs.1 }
  | .resync domain =>
    let p := syncPreBufferSizeForDomain (d.pipelines domain) d.sessions domain
    { d with pipelines := Function.update d.pipelines domain p }
  | .session now op => { d with sessions := d.sessions.after parseFilter now op }

end Step

end Daemon

/-! ### What a span does to a domain's sessions -/

variable {E : TextEnv} {s s' : SessionRegistry} {domain other : DomainId} {sid : SessionId}

theorem TriggerManager.evaluateSpan_core (matched : ParsedFilter → Bool) (m : TriggerManager) :
    (m.core.evaluateSpan matched).2 = (m.evaluateSpan matched).2 ∧ (m.evaluateSpan matched).1.core = m.core := by
  unfold TriggerManager.evaluateSpan TriggerManager.core
  simp only [List.filter_map, List.map_map]
  refine ⟨rfl, ?_⟩
  congr 1
  refine List.map_congr_left fun t _ => ?_
  simp only [Function.comp]
  split <;> rfl

/-- What a span leaves of a session. -/
def spanCore (matched : ParsedFilter → Bool) (c : SessionState) : SessionState :=
  (c.triggers.evaluateSpan matched).2.foldl dropOneshot c

theorem bound_spanTurn (matched : ParsedFilter → Bool) (event : SessionId → TriggerMatch → PipelineEvent) (x : SpanTurns)
    (sid : SessionId) (domain : DomainId) :
    (spanTurn matched event x sid).sessions.bound domain = atId sid (spanCore matched) (x.sessions.bound domain) := by
  unfold spanTurn
  dsimp only
  rw [bound_foldl_told (fun x m => bound_told x.2 sid (event sid m) m domain)]
  unfold evaluateSpanTriggers
  split
  · rename_i hnone
    have hout : sid ∉ (x.sessions.bound domain).map Prod.fst := by
      intro hmem
      obtain ⟨st, hst, -⟩ := mem_bound_fst.mp hmem
      rw [hnone] at hst
      cases hst
    rw [atId_of_not_mem hout, atId_of_not_mem hout]
  · rename_i st hst
    have hcount : (x.sessions.modify sid fun st => { st with triggers := (st.triggers.evaluateSpan matched).1 }).bound
        domain = atId sid (fun c => c) (x.sessions.bound domain) := by
      refine bound_modify fun st _ => ⟨rfl, ?_⟩
      show { st.core with triggers := (st.triggers.evaluateSpan matched).1.core } = st.core
      rw [(st.triggers.evaluateSpan_core matched).2]
      rfl
    rw [hcount, atId_id]
    refine List.map_congr_left fun q hq => ?_
    by_cases he : q.1 = sid
    · obtain ⟨st', hst', -, hcore⟩ := mem_bound.mp (show (q.1, q.2) ∈ x.sessions.bound domain from hq)
      rw [he, hst] at hst'
      obtain rfl := Option.some.inj hst'
      have hfired : (q.2.triggers.evaluateSpan matched).2 = (st.triggers.evaluateSpan matched).2 := by
        rw [← hcore]
        exact (st.triggers.evaluateSpan_core matched).1
      simp only [he, if_true, spanCore, hfired]
    · simp [he]

theorem activeSessionIdsForDomain_eq (s : SessionRegistry) (domain : DomainId) :
    s.activeSessionIdsForDomain domain = (s.bound domain).map Prod.fst := by
  unfold activeSessionIdsForDomain bound
  rw [List.map_map]
  rfl

theorem bound_fst_spanTurn (matched : ParsedFilter → Bool) (event : SessionId → TriggerMatch → PipelineEvent)
    (x : SpanTurns) (sid : SessionId) (domain : DomainId) :
    ((spanTurn matched event x sid).sessions.bound domain).map Prod.fst = (x.sessions.bound domain).map Prod.fst := by
  rw [bound_spanTurn, atId_fst]

/-- A span of another domain leaves a domain's sessions alone. -/
theorem processSpanForDomain_elsewhere (hne : other ≠ domain) (p : LogPipeline) (s : SessionRegistry)
    (span : IncomingSpan) : (processSpanForDomain p s other span).2.bound domain = s.bound domain := by
  have hturns : ∀ (sids : List SessionId) (x : SpanTurns),
      (∀ sid ∈ sids, sid ∈ (x.sessions.bound other).map Prod.fst) →
      (sids.foldl (spanTurn (span.matched p.nextSeq) (span.event p.nextSeq)) x).sessions.bound domain =
        x.sessions.bound domain := by
    intro sids
    induction sids with
    | nil => exact fun _ _ => rfl
    | cons sid sids ih =>
      intro x h
      have hout := not_mem_bound_of_ne hne (h sid List.mem_cons_self)
      rw [List.foldl_cons, ih, bound_spanTurn, atId_of_not_mem hout]
      intro sid' hsid'
      rw [bound_fst_spanTurn]
      exact h sid' (List.mem_cons_of_mem _ hsid')
  refine hturns _ _ fun sid hsid => ?_
  rw [activeSessionIdsForDomain_eq] at hsid
  exact hsid

/-- The triggers of a bound session that a span matches. -/
theorem evaluateSpanTriggers_alike (h : s.bound domain = s'.bound domain)
    (hsid : sid ∈ (s.bound domain).map Prod.fst) (matched : ParsedFilter → Bool) :
    (s.evaluateSpanTriggers sid matched).2 = (s'.evaluateSpanTriggers sid matched).2 := by
  obtain ⟨st, hst, hd⟩ := mem_bound_fst.mp hsid
  obtain ⟨st', hst', -, hcore⟩ := get?_of_alike h hst hd
  have htriggers : st'.triggers.core = st.triggers.core := congrArg SessionState.triggers hcore
  unfold evaluateSpanTriggers
  rw [hst, hst']
  show (st.triggers.evaluateSpan matched).2 = (st'.triggers.evaluateSpan matched).2
  rw [← (st.triggers.evaluateSpan_core matched).1, ← (st'.triggers.evaluateSpan_core matched).1, htriggers]

theorem notifySpanMatches_pipeline (event : TriggerMatch → PipelineEvent) (sid : SessionId) :
    ∀ (fired : List TriggerMatch) (p : LogPipeline) (s s' : SessionRegistry),
    (fired.foldl (notifySpanMatch event sid) (p, s)).1 = (fired.foldl (notifySpanMatch event sid) (p, s')).1
  | [], _, _, _ => rfl
  | _ :: fired, _, _, _ => notifySpanMatches_pipeline event sid fired _ _ _

/-- The loop's state is the same, as far as a domain's records can tell. -/
structure SpanTurns.Alike (domain : DomainId) (x x' : SpanTurns) : Prop where
  pipeline : x.pipeline = x'.pipeline
  bound : x.sessions.bound domain = x'.sessions.bound domain
  removed : x.anyOneshotRemoved = x'.anyOneshotRemoved

theorem spanTurn_alike {x x' : SpanTurns} (h : SpanTurns.Alike domain x x')
    (hsid : sid ∈ (x.sessions.bound domain).map Prod.fst) (matched : ParsedFilter → Bool)
    (event : SessionId → TriggerMatch → PipelineEvent) :
    SpanTurns.Alike domain (spanTurn matched event x sid) (spanTurn matched event x' sid) := by
  have hfired := evaluateSpanTriggers_alike h.bound hsid matched
  refine ⟨?_, ?_, ?_⟩
  · show ((x.sessions.evaluateSpanTriggers sid matched).2.foldl (notifySpanMatch (event sid) sid) _).1 =
      ((x'.sessions.evaluateSpanTriggers sid matched).2.foldl (notifySpanMatch (event sid) sid) _).1
    rw [← hfired, ← h.pipeline]
    exact notifySpanMatches_pipeline _ _ _ _ _ _
  · rw [bound_spanTurn, bound_spanTurn, h.bound]
  · show (_ || (x.sessions.evaluateSpanTriggers sid matched).2.any _) =
      (_ || (x'.sessions.evaluateSpanTriggers sid matched).2.any _)
    rw [hfired, h.removed]

/-- **A span is processed alike** under two registries that have the same
sessions bound to its domain. -/
theorem processSpanForDomain_alike (h : s.bound domain = s'.bound domain) (p : LogPipeline) (span : IncomingSpan) :
    (processSpanForDomain p s domain span).1 = (processSpanForDomain p s' domain span).1 ∧
    (processSpanForDomain p s domain span).2.bound domain = (processSpanForDomain p s' domain span).2.bound domain := by
  have hturns : ∀ (sids : List SessionId) (x x' : SpanTurns), SpanTurns.Alike domain x x' →
      (∀ sid ∈ sids, sid ∈ (x.sessions.bound domain).map Prod.fst) →
      SpanTurns.Alike domain (sids.foldl (spanTurn (span.matched p.nextSeq) (span.event p.nextSeq)) x)
        (sids.foldl (spanTurn (span.matched p.nextSeq) (span.event p.nextSeq)) x') := by
    intro sids
    induction sids with
    | nil => exact fun _ _ h _ => h
    | cons sid sids ih =>
      intro x x' h hsids
      refine ih _ _ (spanTurn_alike h (hsids sid List.mem_cons_self) _ _) fun sid' hsid' => ?_
      rw [bound_fst_spanTurn]
      exact hsids sid' (List.mem_cons_of_mem _ hsid')
  have halike := hturns ((s.bound domain).map Prod.fst) ⟨p.assignSeq, s, false⟩ ⟨p.assignSeq, s', false⟩ ⟨rfl, h, rfl⟩
    fun _ hsid => hsid
  unfold processSpanForDomain
  dsimp only
  rw [activeSessionIdsForDomain_eq, activeSessionIdsForDomain_eq, ← h]
  refine ⟨?_, halike.bound⟩
  unfold syncPreBufferSizeForDomain
  rw [halike.pipeline, halike.removed, maxPreWindowForDomain_eq, maxPreWindowForDomain_eq, halike.bound]

/-- What every turn keeps, a span keeps. -/
theorem SessionRegistry.EachCore.processSpan {P : SessionId → SessionState → Prop} (h : s.EachCore P)
    {p : LogPipeline} {span : IncomingSpan} (hturn : ∀ id c, P id c → P id (spanCore (span.matched p.nextSeq) c)) :
    (processSpanForDomain p s domain span).2.EachCore P := by
  have hturns : ∀ (sids : List SessionId) (x : SpanTurns), x.sessions.EachCore P →
      (sids.foldl (spanTurn (span.matched p.nextSeq) (span.event p.nextSeq)) x).sessions.EachCore P := by
    intro sids
    induction sids with
    | nil => exact fun _ h => h
    | cons sid sids ih =>
      intro x hx
      exact ih _ (hx.of_atId hturn fun other => bound_spanTurn _ _ x sid other)
  exact hturns _ ⟨p.assignSeq, s, false⟩ h

end Logmon
