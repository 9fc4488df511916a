/-
# Sessions, as the log processor sees them

`daemon/session.rs`: the sessions of the daemon with their triggers, filters,
post-windows and notification queues, and the scans that consider only the
sessions bound to one domain. The map's iteration order is the list's. The
domains a session has touched, which only its disconnect reads, are left out.

Key definitions: `SessionId`, `SessionState`, `SessionRegistry`,
`SessionRegistry.evaluateFiltersForDomain`.
Key theorems: `SessionRegistry.filtered_of_not_stored`.
-/
import Logmon.Daemon.Identity
import Logmon.Engine.Pipeline
import Logmon.Engine.Trigger

namespace Logmon

open Lib

inductive SessionId
  | anonymous (id : SessionName)
  | named (name : SessionName)
  deriving DecidableEq

/-- `Display`: the bare name. -/
def SessionId.name : SessionId → SessionName
  | .anonymous id => id
  | .named name => name

structure BufferFilterEntry where
  id : ℕ
  condition : ParsedFilter
  filterString : String
  description : Option String
  deriving DecidableEq

/-- What one entry's filter evaluation concluded, and the policy it concluded
it under. -/
structure StorageDecision where
  shouldStore : Bool
  matchedDescriptions : List String
  policy : FilterPolicy
  deriving DecidableEq

structure SessionState where
  name : Option String
  triggers : TriggerManager
  filters : List BufferFilterEntry
  nextFilterId : ℕ
  notificationQueue : List PipelineEvent
  maxQueueSize : ℕ
  postWindowRemaining : ℕ
  connected : Bool
  lastSeen : ℕ
  /-- The caller's own description of itself, from its last start. -/
  clientInfo : Option JsonValue
  domain : DomainId
  deriving DecidableEq

structure SessionRegistry where
  sessions : FMap SessionId SessionState

namespace SessionRegistry

def new : SessionRegistry := ⟨∅⟩

def modify (s : SessionRegistry) (id : SessionId) (f : SessionState → SessionState) : SessionRegistry :=
  ⟨s.sessions.modify id f⟩

/-- `decrement_post_window`: whether the window was active. -/
def decrementPostWindow (s : SessionRegistry) (id : SessionId) : SessionRegistry × Bool :=
  match s.sessions.get? id with
  | none => (s, false)
  | some state =>
    if state.postWindowRemaining = 0 then (s, false)
    else (s.modify id fun st => { st with postWindowRemaining := st.postWindowRemaining - 1 }, true)

/-- Open a storage post-window of at least `count` entries. -/
def extendPostWindow (s : SessionRegistry) (id : SessionId) (count : ℕ) : SessionRegistry :=
  s.modify id fun st => { st with postWindowRemaining := max st.postWindowRemaining count }

def evaluateTriggers (E : TextEnv) (s : SessionRegistry) (id : SessionId) (entry : LogEntry) :
    SessionRegistry × List TriggerMatch :=
  match s.sessions.get? id with
  | none => (s, [])
  | some state =>
    (s.modify id fun st => { st with triggers := (st.triggers.evaluate E entry).1 }, (state.triggers.evaluate E entry).2)

def removeTrigger (s : SessionRegistry) (id : SessionId) (triggerId : ℕ) : SessionRegistry :=
  s.modify id fun st => { st with triggers := st.triggers.remove triggerId }

/-- Queued for a disconnected named session, while there is room. -/
def sendOrQueueNotification (s : SessionRegistry) (id : SessionId) (event : PipelineEvent) : SessionRegistry :=
  s.modify id fun st =>
    if !st.connected && st.name.isSome && st.notificationQueue.length < st.maxQueueSize then
      { st with notificationQueue := st.notificationQueue ++ [event] }
    else st

/-- The states of the sessions bound to `domain`. -/
def boundTo (s : SessionRegistry) (domain : DomainId) : List SessionState :=
  (s.sessions.entries.map Prod.snd).filter fun st => st.domain = domain

/-- The filters of the sessions bound to `domain`. -/
def filtersOf (s : SessionRegistry) (domain : DomainId) : List BufferFilterEntry :=
  (s.boundTo domain).flatMap SessionState.filters

/-- Union of the filters of the sessions bound to `domain`. -/
def evaluateFiltersForDomain (E : TextEnv) (s : SessionRegistry) (domain : DomainId) (entry : LogEntry) :
    StorageDecision :=
  let filters := s.filtersOf domain
  let matched := filters.filter fun f => matchesEntry E f.condition entry
  let policy := FilterPolicy.new (filters.map BufferFilterEntry.filterString)
  { shouldStore := !matched.isEmpty || !policy.isFiltered
    matchedDescriptions := matched.filterMap BufferFilterEntry.description
    policy := policy }

/-- Sessions bound to `domain`, largest pre-window first. -/
def activeSessionIdsSortedByPreWindowForDomain (s : SessionRegistry) (domain : DomainId) : List SessionId :=
  let pairs := (s.sessions.entries.filter fun q =>
    (q.2.connected || (match q.1 with | .named _ => true | .anonymous _ => false)) && q.2.domain = domain).map
      fun q => (q.1, q.2.triggers.maxPreWindow)
  (pairs.insertionSort fun a b => b.2 ≤ a.2).map Prod.fst

/-- The largest pre-window across the triggers of the sessions bound to
`domain`. -/
def maxPreWindowForDomain (s : SessionRegistry) (domain : DomainId) : ℕ :=
  ((s.boundTo domain).map fun st => st.triggers.maxPreWindow).foldl max 0

/-- **An entry is refused only under a filtered policy.** -/
theorem filtered_of_not_stored {E : TextEnv} {s : SessionRegistry} {domain : DomainId} {entry : LogEntry}
    (h : (s.evaluateFiltersForDomain E domain entry).shouldStore = false) :
    (s.evaluateFiltersForDomain E domain entry).policy.isFiltered = true := by
  simp only [evaluateFiltersForDomain, Bool.or_eq_false_iff, Bool.not_eq_false'] at h
  exact h.2

end SessionRegistry

end Logmon
