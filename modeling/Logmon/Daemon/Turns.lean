/-
# What an entry does to the sessions

The sessions bound to a domain, as far as an entry can tell them apart: the
queue, the match counts and what only the session's own requests read are set
aside (`SessionState.core`). Everything the log processor reads of the
sessions it reads off this list, and a session's turn changes one place of it
(`bound_sessionTurn`), in its own domain's list and in no other
(`bound_sessionTurns_ne`).

Key definitions: `SessionState.core`, `SessionRegistry.bound`, `turnCore`,
`firingsFor`.
Key theorems: `bound_sessionTurn`, `bound_sessionTurns_ne`,
`sessionTurns_alike`, `processEntryForDomain_alike`.
-/
import Logmon.Daemon.LogProcessor
import Logmon.Daemon.SessionOps

namespace Logmon

open Lib

/-! ### Sessions as an entry sees them -/

/-- Without how often it fired. -/
def Trigger.core (t : Trigger) : Trigger := { t with matchCount := 0 }

def TriggerManager.core (m : TriggerManager) : TriggerManager := { m with triggers := m.triggers.map Trigger.core }

def SessionState.core (st : SessionState) : SessionState :=
  { st with triggers := st.triggers.core, notificationQueue := [], lastSeen := 0, clientInfo := none }

/-- A change of one session's place. -/
def atId (sid : SessionId) (g : SessionState → SessionState) (l : List (SessionId × SessionState)) :
    List (SessionId × SessionState) :=
  l.map fun q => if q.1 = sid then (q.1, g q.2) else q

theorem atId_fst (sid : SessionId) (g : SessionState → SessionState) (l : List (SessionId × SessionState)) :
    (atId sid g l).map Prod.fst = l.map Prod.fst := by
  simp only [atId, List.map_map]
  refine List.map_congr_left fun q _ => ?_
  simp only [Function.comp]
  split <;> rfl

theorem atId_atId (sid : SessionId) (g g' : SessionState → SessionState) (l : List (SessionId × SessionState)) :
    atId sid g' (atId sid g l) = atId sid (fun c => g' (g c)) l := by
  simp only [atId, List.map_map]
  refine List.map_congr_left fun q _ => ?_
  by_cases h : q.1 = sid <;> simp [h]

theorem atId_of_not_mem {sid : SessionId} {l : List (SessionId × SessionState)} (h : sid ∉ l.map Prod.fst)
    (g : SessionState → SessionState) : atId sid g l = l := by
  refine (List.map_congr_left fun q hq => ?_).trans (List.map_id l)
  have hne : q.1 ≠ sid := fun he => h (he ▸ List.mem_map_of_mem hq)
  simp [hne]

theorem atId_id (sid : SessionId) (l : List (SessionId × SessionState)) : atId sid (fun c => c) l = l := by
  refine (List.map_congr_left fun q _ => ?_).trans (List.map_id l)
  by_cases h : q.1 = sid <;> simp [h]
  exact Prod.ext h.symm rfl

namespace SessionRegistry

/-- The sessions bound to a domain, as an entry sees them. -/
def bound (s : SessionRegistry) (domain : DomainId) : List (SessionId × SessionState) :=
  (s.sessions.entries.filter fun q => q.2.domain = domain).map fun q => (q.1, q.2.core)

variable {s s' : SessionRegistry} {domain : DomainId} {sid : SessionId} {st c : SessionState}

theorem mem_entries {q : SessionId × SessionState} : q ∈ s.sessions.entries ↔ s.get? q.1 = some q.2 :=
  FMap.mem_iff (k := q.1) (v := q.2)

theorem mem_bound : (sid, c) ∈ s.bound domain ↔ ∃ st, s.get? sid = some st ∧ st.domain = domain ∧ st.core = c := by
  simp only [bound, List.mem_map, List.mem_filter, decide_eq_true_eq, Prod.mk.injEq]
  constructor
  · rintro ⟨q, ⟨hq, hd⟩, rfl, rfl⟩
    exact ⟨q.2, mem_entries.mp hq, hd, rfl⟩
  · rintro ⟨st, hst, hd, rfl⟩
    exact ⟨(sid, st), ⟨mem_entries.mpr hst, hd⟩, rfl, rfl⟩

theorem mem_bound_fst : sid ∈ (s.bound domain).map Prod.fst ↔ ∃ st, s.get? sid = some st ∧ st.domain = domain := by
  rw [List.mem_map]
  constructor
  · rintro ⟨⟨_, c⟩, hq, rfl⟩
    obtain ⟨st, hst, hd, -⟩ := mem_bound.mp hq
    exact ⟨st, hst, hd⟩
  · rintro ⟨st, hst, hd⟩
    exact ⟨(sid, st.core), mem_bound.mpr ⟨st, hst, hd, rfl⟩, rfl⟩

/-- A session is bound to one domain. -/
theorem not_mem_bound_of_ne {other : DomainId} (hne : other ≠ domain) (h : sid ∈ (s.bound other).map Prod.fst) :
    sid ∉ (s.bound domain).map Prod.fst := by
  intro h'
  obtain ⟨st, hst, hd⟩ := mem_bound_fst.mp h
  obtain ⟨st', hst', hd'⟩ := mem_bound_fst.mp h'
  rw [hst] at hst'
  obtain rfl := Option.some.inj hst'
  exact hne (hd.symm.trans hd')

/-- A change that keeps its session's domain changes its place in the list. -/
theorem bound_modify {f g : SessionState → SessionState}
    (h : ∀ st, s.get? sid = some st → (f st).domain = st.domain ∧ (f st).core = g st.core) :
    (s.modify sid f).bound domain = atId sid g (s.bound domain) := by
  unfold bound atId
  simp only [modify, FMap.modify, List.filter_map, List.map_map]
  have hfilter : (s.sessions.entries.filter
      ((fun q => decide (q.2.domain = domain)) ∘ fun q => if q.1 = sid then (q.1, f q.2) else q)) =
      s.sessions.entries.filter fun q => q.2.domain = domain := by
    refine List.filter_congr fun q hq => ?_
    simp only [Function.comp]
    split
    · rename_i he
      have := (h q.2 (he ▸ mem_entries.mp hq)).1
      rw [this]
    · rfl
  rw [hfilter]
  refine List.map_congr_left fun q hq => ?_
  simp only [Function.comp]
  by_cases he : q.1 = sid
  · have := (h q.2 (he ▸ mem_entries.mp (List.mem_filter.mp hq).1)).2
    simp only [he, if_true, this]
  · simp [he]

/-- The lookup of a bound session, as an entry sees it. -/
theorem get?_of_alike (h : s.bound domain = s'.bound domain) (hst : s.get? sid = some st) (hd : st.domain = domain) :
    ∃ st', s'.get? sid = some st' ∧ st'.domain = domain ∧ st'.core = st.core := by
  have hmem : (sid, st.core) ∈ s'.bound domain := h ▸ mem_bound.mpr ⟨st, hst, hd, rfl⟩
  exact mem_bound.mp hmem

/-! ### What is read of them -/

/-- The sessions of a domain are read off the list. -/
theorem boundTo_core (s : SessionRegistry) (domain : DomainId) :
    (s.boundTo domain).map SessionState.core = (s.bound domain).map Prod.snd := by
  unfold boundTo bound
  rw [List.filter_map, List.map_map, List.map_map]
  rfl

theorem filtersOf_eq (s : SessionRegistry) (domain : DomainId) :
    s.filtersOf domain = ((s.bound domain).map Prod.snd).flatMap SessionState.filters := by
  rw [← boundTo_core, List.flatMap_map]
  rfl

theorem maxPreWindow_core (m : TriggerManager) : m.core.maxPreWindow = m.maxPreWindow := by
  simp only [TriggerManager.maxPreWindow, TriggerManager.core, List.map_map]
  rfl

theorem maxPreWindowForDomain_eq (s : SessionRegistry) (domain : DomainId) :
    s.maxPreWindowForDomain domain =
      (((s.bound domain).map Prod.snd).map fun st => st.triggers.maxPreWindow).foldl max 0 := by
  rw [← boundTo_core, List.map_map]
  unfold maxPreWindowForDomain
  congr 1
  refine List.map_congr_left fun st _ => ?_
  exact (maxPreWindow_core st.triggers).symm

/-- The ids of the sessions an entry has turns for. -/
theorem activeSessionIds_eq (s : SessionRegistry) (domain : DomainId) :
    s.activeSessionIdsSortedByPreWindowForDomain domain =
      ((((s.bound domain).filter fun q =>
        q.2.connected || (match q.1 with | .named _ => true | .anonymous _ => false)).map
          fun q => (q.1, q.2.triggers.maxPreWindow)).insertionSort fun a b => b.2 ≤ a.2).map Prod.fst := by
  unfold activeSessionIdsSortedByPreWindowForDomain bound
  simp only [List.filter_map, List.map_map, List.filter_filter]
  congr 2
  refine Eq.trans ?_ (List.map_congr_left fun q _ => by simp only [Function.comp]; exact congrArg _ (maxPreWindow_core _).symm)
  rfl

theorem mem_activeSessionIds : sid ∈ s.activeSessionIdsSortedByPreWindowForDomain domain ↔
    ∃ st, s.get? sid = some st ∧ st.domain = domain ∧
      (st.connected || (match sid with | .named _ => true | .anonymous _ => false)) = true := by
  simp only [activeSessionIdsSortedByPreWindowForDomain, List.mem_map, List.mem_insertionSort, List.mem_filter,
    Bool.and_eq_true, decide_eq_true_eq]
  constructor
  · rintro ⟨_, ⟨q, ⟨hq, hactive, hd⟩, rfl⟩, rfl⟩
    exact ⟨q.2, mem_entries.mp hq, hd, hactive⟩
  · rintro ⟨st, hst, hd, hactive⟩
    exact ⟨_, ⟨(sid, st), ⟨mem_entries.mpr hst, hactive, hd⟩, rfl⟩, rfl⟩

end SessionRegistry

/-! ### One session's turn -/

/-- What an entry leaves of a session: its window and its triggers have seen
it. -/
def seenCore (E : TextEnv) (entry : LogEntry) (c : SessionState) : SessionState :=
  { c with
    postWindowRemaining := c.postWindowRemaining - 1
    triggers := (c.triggers.evaluate E entry).1.core }

/-- Without a trigger that fired and fires once. -/
def dropOneshot (c : SessionState) (m : TriggerMatch) : SessionState :=
  if m.oneshot then { c with triggers := c.triggers.remove m.id } else c

/-- What a turn leaves of its session, given what fired. -/
def turnCore (E : TextEnv) (entry : LogEntry) (fired : List TriggerMatch) (c : SessionState) : SessionState :=
  if fired.isEmpty then seenCore E entry c
  else
    fired.foldl dropOneshot
      { seenCore E entry c with
        postWindowRemaining := max (seenCore E entry c).postWindowRemaining (maxPost fired) }

theorem Trigger.see_core (E : TextEnv) (entry : LogEntry) (t : Trigger) :
    (t.core.see E entry).2 = (t.see E entry).2 ∧ (t.core.see E entry).1.core = (t.see E entry).1.core := by
  unfold Trigger.see Trigger.core
  dsimp only
  split
  · exact ⟨rfl, rfl⟩
  · split <;> exact ⟨rfl, rfl⟩

theorem TriggerManager.evaluate_core (E : TextEnv) (entry : LogEntry) (m : TriggerManager) :
    (m.core.evaluate E entry).2 = (m.evaluate E entry).2 ∧
      (m.core.evaluate E entry).1.core = (m.evaluate E entry).1.core := by
  unfold TriggerManager.evaluate TriggerManager.core
  simp only [List.filterMap_map, List.map_map]
  refine ⟨?_, ?_⟩
  · refine List.filterMap_congr fun t _ => ?_
    exact (t.see_core E entry).1
  · congr 1
    refine List.map_congr_left fun t _ => ?_
    exact (t.see_core E entry).2

theorem TriggerManager.remove_core (m : TriggerManager) (id : ℕ) : (m.remove id).core = m.core.remove id := by
  unfold TriggerManager.remove TriggerManager.core
  congr 1
  rw [List.eraseP_map]
  rfl

namespace SessionRegistry

variable {E : TextEnv} {s s' : SessionRegistry} {domain : DomainId} {sid : SessionId} {st c : SessionState}
  {entry : LogEntry}

/-- Counting the window down moves it by one, or not at all from 0. -/
theorem decrementPostWindow_fst (s : SessionRegistry) (sid : SessionId) (domain : DomainId) :
    (s.decrementPostWindow sid).1.bound domain =
      atId sid (fun c => { c with postWindowRemaining := c.postWindowRemaining - 1 }) (s.bound domain) := by
  have hmod : (s.modify sid fun st => { st with postWindowRemaining := st.postWindowRemaining - 1 }).bound domain =
      atId sid (fun c => { c with postWindowRemaining := c.postWindowRemaining - 1 }) (s.bound domain) :=
    bound_modify fun _ _ => ⟨rfl, rfl⟩
  unfold decrementPostWindow
  split
  · rename_i hnone
    refine (atId_of_not_mem (fun hmem => ?_) _).symm
    obtain ⟨st, hst, -⟩ := mem_bound_fst.mp hmem
    rw [get?, hnone] at hst
    cases hst
  · rename_i st hst
    split
    · rename_i hzero
      refine (List.map_id _).symm.trans (List.map_congr_left fun q hq => ?_)
      by_cases he : q.1 = sid
      · obtain ⟨st', hst', -, hcore⟩ := mem_bound.mp (show (q.1, q.2) ∈ s.bound domain from hq)
        rw [he, get?, hst] at hst'
        obtain rfl := Option.some.inj hst'
        have hq2 : q.2.postWindowRemaining = 0 := by
          rw [← hcore]
          exact hzero
        simp only [he, if_true, id_eq, hq2]
        refine Prod.ext he ?_
        show q.2 = { q.2 with postWindowRemaining := 0 - 1 }
        rw [Nat.zero_sub, ← hq2]
      · simp [he]
    · exact hmod

theorem decrementPostWindow_get? (s : SessionRegistry) (sid sid' : SessionId) :
    (s.decrementPostWindow sid).1.get? sid' =
      if sid' = sid then (s.get? sid').map fun st => { st with postWindowRemaining := st.postWindowRemaining - 1 }
      else s.get? sid' := by
  unfold decrementPostWindow
  split
  · rename_i hnone
    split
    · rename_i he
      rw [he, get?, hnone]
      rfl
    · rfl
  · rename_i st hst
    split
    · rename_i hzero
      split
      · rename_i he
        rw [he, get?, hst]
        show some st = some { st with postWindowRemaining := st.postWindowRemaining - 1 }
        rw [hzero, Nat.zero_sub, ← hzero]
      · rfl
    · exact get?_modify _ _ _ _

/-- What one session's window and triggers made of the entry. -/
theorem evaluateSession_of (hst : s.get? sid = some st) :
    (evaluateSession E s sid entry).2.1 = decide (st.postWindowRemaining ≠ 0) ∧
    (evaluateSession E s sid entry).2.2 = (st.triggers.evaluate E entry).2 := by
  have hget : (s.decrementPostWindow sid).1.get? sid =
      some { st with postWindowRemaining := st.postWindowRemaining - 1 } := by
    rw [decrementPostWindow_get?, if_pos rfl, hst]
    rfl
  refine ⟨?_, ?_⟩
  · show (s.decrementPostWindow sid).2 = _
    unfold decrementPostWindow
    rw [show s.sessions.get? sid = some st from hst]
    dsimp only
    split
    · rename_i hzero
      simp [hzero]
    · rename_i hne
      simp [hne]
  · show ((s.decrementPostWindow sid).1.evaluateTriggers E sid entry).2 = _
    unfold evaluateTriggers
    rw [show (s.decrementPostWindow sid).1.sessions.get? sid = some _ from hget]

theorem bound_evaluateSession (s : SessionRegistry) (sid : SessionId) (entry : LogEntry) (domain : DomainId) :
    (evaluateSession E s sid entry).1.bound domain = atId sid (seenCore E entry) (s.bound domain) := by
  have htriggers : ∀ r : SessionRegistry, (r.evaluateTriggers E sid entry).1.bound domain =
      atId sid (fun c => { c with triggers := (c.triggers.evaluate E entry).1.core }) (r.bound domain) := by
    intro r
    unfold evaluateTriggers
    split
    · rename_i hnone
      refine (atId_of_not_mem (fun hmem => ?_) _).symm
      obtain ⟨st, hst, -⟩ := mem_bound_fst.mp hmem
      rw [get?, hnone] at hst
      cases hst
    · refine bound_modify fun st _ => ⟨rfl, ?_⟩
      show { st.core with triggers := (st.triggers.evaluate E entry).1.core } =
        { st.core with triggers := (st.triggers.core.evaluate E entry).1.core }
      rw [(st.triggers.evaluate_core E entry).2]
  show ((s.decrementPostWindow sid).1.evaluateTriggers E sid entry).1.bound domain = _
  rw [htriggers, decrementPostWindow_fst, atId_atId]
  rfl

theorem bound_sendOrQueue (s : SessionRegistry) (sid : SessionId) (event : PipelineEvent) (domain : DomainId) :
    (s.sendOrQueueNotification sid event).bound domain = s.bound domain := by
  have hsend : (s.sendOrQueueNotification sid event).bound domain = atId sid (fun c => c) (s.bound domain) := by
    refine bound_modify fun st _ => ?_
    split <;> exact ⟨rfl, rfl⟩
  rw [hsend, atId_id]

theorem bound_removeTrigger (s : SessionRegistry) (sid : SessionId) (id : ℕ) (domain : DomainId) :
    (s.removeTrigger sid id).bound domain =
      atId sid (fun c => { c with triggers := c.triggers.remove id }) (s.bound domain) := by
  refine bound_modify fun st _ => ⟨rfl, ?_⟩
  show { st.core with triggers := (st.triggers.remove id).core } = _
  rw [TriggerManager.remove_core]
  rfl

/-- A session told of a match, without the trigger if it fires once. -/
theorem bound_told (s : SessionRegistry) (sid : SessionId) (event : PipelineEvent) (m : TriggerMatch)
    (domain : DomainId) :
    (if m.oneshot then (s.sendOrQueueNotification sid event).removeTrigger sid m.id
      else s.sendOrQueueNotification sid event).bound domain =
      atId sid (fun c => dropOneshot c m) (s.bound domain) := by
  cases ho : m.oneshot with
  | true =>
    rw [if_pos rfl, bound_removeTrigger, bound_sendOrQueue]
    simp [dropOneshot, ho]
  | false =>
    rw [if_neg Bool.false_ne_true, bound_sendOrQueue]
    simp [dropOneshot, ho, atId_id]

/-- A session told of one match after the other. -/
theorem bound_foldl_told {tell : LogPipeline × SessionRegistry → TriggerMatch → LogPipeline × SessionRegistry}
    (htell : ∀ x m, (tell x m).2.bound domain = atId sid (fun c => dropOneshot c m) (x.2.bound domain)) :
    ∀ (fired : List TriggerMatch) (x : LogPipeline × SessionRegistry),
    (fired.foldl tell x).2.bound domain = atId sid (fun c => fired.foldl dropOneshot c) (x.2.bound domain)
  | [], x => (atId_id sid _).symm
  | m :: fired, x => by
    rw [List.foldl_cons, bound_foldl_told htell fired, htell, atId_atId]
    rfl

theorem bound_notifyMatches (sid : SessionId) (flushed : ℕ) (domain : DomainId) (fired : List TriggerMatch)
    (x : LogPipeline × SessionRegistry) :
    (fired.foldl (notifyMatch sid entry flushed) x).2.bound domain =
      atId sid (fun c => fired.foldl dropOneshot c) (x.2.bound domain) :=
  bound_foldl_told (fun x m => bound_told x.2 sid (eventFor x.1 sid entry flushed m) m domain) fired x

end SessionRegistry

open SessionRegistry

variable {E : TextEnv} {entry : LogEntry}

/-- **A turn changes its session's place, and nothing else in any domain's
list.** -/
theorem bound_sessionTurn (domain other : DomainId) (x : Turns) (sid : SessionId) :
    (sessionTurn E domain entry x sid).sessions.bound other =
      atId sid (turnCore E entry (evaluateSession E x.sessions sid entry).2.2) (x.sessions.bound other) := by
  unfold sessionTurn turnCore
  dsimp only
  split
  · exact bound_evaluateSession _ _ _ _
  · have hextend : ∀ r : SessionRegistry, ∀ n, (r.extendPostWindow sid n).bound other =
        atId sid (fun c => { c with postWindowRemaining := max c.postWindowRemaining n }) (r.bound other) :=
      fun r n => bound_modify fun _ _ => ⟨rfl, rfl⟩
    unfold notifySession
    dsimp only
    rw [bound_notifyMatches, hextend, bound_evaluateSession, atId_atId, atId_atId]

theorem bound_fst_sessionTurn (domain other : DomainId) (x : Turns) (sid : SessionId) :
    ((sessionTurn E domain entry x sid).sessions.bound other).map Prod.fst = (x.sessions.bound other).map Prod.fst := by
  rw [bound_sessionTurn, atId_fst]

/-- Turns of sessions bound elsewhere leave a domain's list alone. -/
theorem bound_sessionTurns_ne {domain other : DomainId} (hne : domain ≠ other) : ∀ (sids : List SessionId) {x : Turns},
    (∀ sid ∈ sids, sid ∈ (x.sessions.bound domain).map Prod.fst) →
    (sids.foldl (sessionTurn E domain entry) x).sessions.bound other = x.sessions.bound other
  | [], _, _ => rfl
  | sid :: sids, x, h => by
    have hturn : (sessionTurn E domain entry x sid).sessions.bound other = x.sessions.bound other := by
      rw [bound_sessionTurn]
      exact atId_of_not_mem (not_mem_bound_of_ne hne (h sid List.mem_cons_self)) _
    rw [List.foldl_cons, bound_sessionTurns_ne hne sids, hturn]
    intro sid' hsid'
    rw [bound_fst_sessionTurn]
    exact h sid' (List.mem_cons_of_mem _ hsid')

/-! ### What fires on an entry -/

/-- What fires in the turns of some sessions. -/
def turnFirings (E : TextEnv) (domain : DomainId) (entry : LogEntry) : List SessionId → Turns →
    List (SessionId × TriggerMatch)
  | [], _ => []
  | sid :: sids, x =>
    (evaluateSession E x.sessions sid entry).2.2.map (Prod.mk sid) ++
      turnFirings E domain entry sids (sessionTurn E domain entry x sid)

/-- What fires when an entry arrives in a domain, session by session. -/
def firingsFor (E : TextEnv) (p : LogPipeline) (s : SessionRegistry) (domain : DomainId) (entry : LogEntry) :
    List (SessionId × TriggerMatch) :=
  turnFirings E domain (assigned p entry) (s.activeSessionIdsSortedByPreWindowForDomain domain)
    ⟨p.assignSeq, s, false⟩

/-! ### Two registries with the same sessions in a domain -/

/-- The loop's state is the same, as far as a domain's entries can tell. -/
structure Turns.Alike (domain : DomainId) (x x' : Turns) : Prop where
  pipeline : x.pipeline = x'.pipeline
  bound : x.sessions.bound domain = x'.sessions.bound domain
  active : x.anyPostWindowActive = x'.anyPostWindowActive

variable {domain : DomainId} {x x' : Turns} {s s' : SessionRegistry}

/-- A bound session answers an entry alike. -/
theorem evaluateSession_alike (h : s.bound domain = s'.bound domain) {sid : SessionId}
    (hsid : sid ∈ (s.bound domain).map Prod.fst) :
    (evaluateSession E s sid entry).2 = (evaluateSession E s' sid entry).2 := by
  obtain ⟨st, hst, hd⟩ := mem_bound_fst.mp hsid
  obtain ⟨st', hst', -, hcore⟩ := get?_of_alike h hst hd
  obtain ⟨h1, h2⟩ := @evaluateSession_of E _ _ _ entry hst
  obtain ⟨h1', h2'⟩ := @evaluateSession_of E _ _ _ entry hst'
  have hpost : st'.postWindowRemaining = st.postWindowRemaining := by
    have := congrArg SessionState.postWindowRemaining hcore
    exact this
  have htriggers : st'.triggers.core = st.triggers.core := by
    have := congrArg SessionState.triggers hcore
    exact this
  refine Prod.ext ?_ ?_
  · rw [h1, h1', hpost]
  · rw [h2, h2', ← (st.triggers.evaluate_core E entry).1, ← (st'.triggers.evaluate_core E entry).1, htriggers]

theorem notifyMatches_pipeline (sid : SessionId) (flushed : ℕ) : ∀ (fired : List TriggerMatch) (p : LogPipeline)
    (s s' : SessionRegistry), (fired.foldl (notifyMatch sid entry flushed) (p, s)).1 =
      (fired.foldl (notifyMatch sid entry flushed) (p, s')).1
  | [], _, _, _ => rfl
  | _ :: fired, _, _, _ => notifyMatches_pipeline sid flushed fired _ _ _

/-- The pipeline after a turn, and whether a window is open. -/
theorem sessionTurn_eq (domain : DomainId) (x : Turns) (sid : SessionId) :
    ((sessionTurn E domain entry x sid).pipeline =
      if (evaluateSession E x.sessions sid entry).2.2.isEmpty then x.pipeline
      else
        (notifySession (flushPreWindow (storeTriggering x.pipeline entry) entry (evaluateSession E x.sessions sid entry).2.2)
          (evaluateSession E x.sessions sid entry).1 domain sid entry (evaluateSession E x.sessions sid entry).2.2).1) ∧
    ((sessionTurn E domain entry x sid).anyPostWindowActive =
      if (evaluateSession E x.sessions sid entry).2.2.isEmpty then
        x.anyPostWindowActive || (evaluateSession E x.sessions sid entry).2.1
      else true) := by
  unfold sessionTurn
  dsimp only
  constructor <;> split <;> rfl

/-- The notifications of a turn, read off what they leave of the sessions. -/
theorem notifySession_alike {p : LogPipeline} {sid : SessionId} {fired : List TriggerMatch}
    (h : s.bound domain = s'.bound domain) :
    (notifySession p s domain sid entry fired).1 = (notifySession p s' domain sid entry fired).1 := by
  have hextend : (s.extendPostWindow sid (maxPost fired)).bound domain =
      (s'.extendPostWindow sid (maxPost fired)).bound domain := by
    have hmod : ∀ r : SessionRegistry, (r.extendPostWindow sid (maxPost fired)).bound domain =
        atId sid (fun c => { c with postWindowRemaining := max c.postWindowRemaining (maxPost fired) }) (r.bound domain) :=
      fun r => bound_modify fun _ _ => ⟨rfl, rfl⟩
    rw [hmod, hmod, h]
  have hpipeline := @notifyMatches_pipeline entry sid (maxPre fired) fired p
    (s.extendPostWindow sid (maxPost fired)) (s'.extendPostWindow sid (maxPost fired))
  have hmax : (fired.foldl (notifyMatch sid entry (maxPre fired))
      (p, s.extendPostWindow sid (maxPost fired))).2.maxPreWindowForDomain domain =
      (fired.foldl (notifyMatch sid entry (maxPre fired))
        (p, s'.extendPostWindow sid (maxPost fired))).2.maxPreWindowForDomain domain := by
    rw [maxPreWindowForDomain_eq, maxPreWindowForDomain_eq, bound_notifyMatches, bound_notifyMatches, hextend]
  show (if fired.any TriggerMatch.oneshot then _ else _) = (if fired.any TriggerMatch.oneshot then _ else _)
  unfold syncPreBufferSizeForDomain
  rw [hpipeline, hmax]

theorem sessionTurn_alike (h : Turns.Alike domain x x') {sid : SessionId}
    (hsid : sid ∈ (x.sessions.bound domain).map Prod.fst) :
    Turns.Alike domain (sessionTurn E domain entry x sid) (sessionTurn E domain entry x' sid) := by
  have hevaluate := @evaluateSession_alike E entry _ _ _ h.bound _ hsid
  have hseen : (evaluateSession E x.sessions sid entry).1.bound domain =
      (evaluateSession E x'.sessions sid entry).1.bound domain := by
    rw [bound_evaluateSession, bound_evaluateSession, h.bound]
  refine ⟨?_, ?_, ?_⟩
  · rw [(sessionTurn_eq domain x sid).1, (sessionTurn_eq domain x' sid).1, ← hevaluate, ← h.pipeline,
      notifySession_alike hseen]
  · rw [bound_sessionTurn, bound_sessionTurn, hevaluate, h.bound]
  · rw [(sessionTurn_eq domain x sid).2, (sessionTurn_eq domain x' sid).2, ← hevaluate, ← h.active]

/-- **The turns of a domain's sessions go alike** in two registries that have
the same sessions bound to it, and the same triggers fire. -/
theorem sessionTurns_alike : ∀ (sids : List SessionId) {x x' : Turns}, Turns.Alike domain x x' →
    (∀ sid ∈ sids, sid ∈ (x.sessions.bound domain).map Prod.fst) →
    Turns.Alike domain (sids.foldl (sessionTurn E domain entry) x) (sids.foldl (sessionTurn E domain entry) x') ∧
      turnFirings E domain entry sids x = turnFirings E domain entry sids x'
  | [], _, _, h, _ => ⟨h, rfl⟩
  | sid :: sids, x, x', h, hsids => by
    have hsid := hsids sid List.mem_cons_self
    have hturn := @sessionTurn_alike E entry _ _ _ h _ hsid
    obtain ⟨hrest, hfired⟩ := sessionTurns_alike sids hturn fun sid' hsid' => by
      rw [bound_fst_sessionTurn]
      exact hsids sid' (List.mem_cons_of_mem _ hsid')
    refine ⟨hrest, ?_⟩
    rw [turnFirings, turnFirings, hfired, @evaluateSession_alike E entry _ _ _ h.bound _ hsid]

theorem mem_bound_of_active {sid : SessionId} (h : sid ∈ s.activeSessionIdsSortedByPreWindowForDomain domain) :
    sid ∈ (s.bound domain).map Prod.fst := by
  obtain ⟨st, hst, hd, -⟩ := mem_activeSessionIds.mp h
  exact mem_bound_fst.mpr ⟨st, hst, hd⟩

theorem judgeEntry_alike (h : s.bound domain = s'.bound domain) (p : LogPipeline) :
    judgeEntry E p s domain entry = judgeEntry E p s' domain entry := by
  unfold judgeEntry evaluateFiltersForDomain
  rw [filtersOf_eq, filtersOf_eq, h]

/-- **An entry is processed alike** under two registries that have the same
sessions bound to its domain. -/
theorem processEntryForDomain_alike (h : s.bound domain = s'.bound domain) (p : LogPipeline) (entry : LogEntry) :
    (processEntryForDomain E p s domain entry).1 = (processEntryForDomain E p s' domain entry).1 ∧
    (processEntryForDomain E p s domain entry).2.bound domain =
      (processEntryForDomain E p s' domain entry).2.bound domain ∧
    firingsFor E p s domain entry = firingsFor E p s' domain entry := by
  have hids : s.activeSessionIdsSortedByPreWindowForDomain domain =
      s'.activeSessionIdsSortedByPreWindowForDomain domain := by
    rw [activeSessionIds_eq, activeSessionIds_eq, h]
  have hstart : Turns.Alike domain ⟨p.assignSeq, s, false⟩ ⟨p.assignSeq, s', false⟩ := ⟨rfl, h, rfl⟩
  obtain ⟨halike, hfired⟩ := @sessionTurns_alike E (assigned p entry) domain
    (s.activeSessionIdsSortedByPreWindowForDomain domain) _ _ hstart fun sid hsid => mem_bound_of_active hsid
  unfold processEntryForDomain firingsFor
  dsimp only
  rw [← hids]
  refine ⟨?_, halike.bound, hfired⟩
  rw [halike.pipeline, halike.active]
  unfold storeEntry
  rw [judgeEntry_alike halike.bound]

/-- An entry of another domain leaves a domain's sessions alone. -/
theorem processEntryForDomain_elsewhere {other : DomainId} (hne : other ≠ domain) (p : LogPipeline)
    (s : SessionRegistry) (entry : LogEntry) :
    (processEntryForDomain E p s other entry).2.bound domain = s.bound domain :=
  bound_sessionTurns_ne hne _ fun _ hsid => mem_bound_of_active hsid

/-! ### What a turn keeps of every session -/

namespace SessionRegistry

/-- Every session, as an entry sees it. -/
def EachCore (P : SessionId → SessionState → Prop) (s : SessionRegistry) : Prop :=
  ∀ id st, s.get? id = some st → P id st.core

variable {P : SessionId → SessionState → Prop}

theorem eachCore_iff : s.EachCore P ↔ ∀ domain, ∀ q ∈ s.bound domain, P q.1 q.2 := by
  constructor
  · intro h domain q hq
    obtain ⟨st, hst, -, hcore⟩ := mem_bound.mp (show (q.1, q.2) ∈ s.bound domain from hq)
    rw [← hcore]
    exact h q.1 st hst
  · intro h id st hst
    exact h st.domain (id, st.core) (mem_bound.mpr ⟨st, hst, rfl, rfl⟩)

/-- A change of one session's place. -/
theorem EachCore.of_atId {g : SessionState → SessionState} {sid : SessionId} (h : s.EachCore P)
    (hg : ∀ id c, P id c → P id (g c)) (hs : ∀ domain, s'.bound domain = atId sid g (s.bound domain)) :
    s'.EachCore P := by
  rw [eachCore_iff] at h ⊢
  intro domain q hq
  rw [hs] at hq
  obtain ⟨q0, hq0, rfl⟩ := List.mem_map.mp hq
  split
  · exact hg _ _ (h domain q0 hq0)
  · exact h domain q0 hq0

end SessionRegistry

/-- What every turn keeps, an entry keeps. -/
theorem SessionRegistry.EachCore.processEntry {P : SessionId → SessionState → Prop} (h : s.EachCore P)
    {p : LogPipeline} {entry : LogEntry}
    (hturn : ∀ fired id c, P id c → P id (turnCore E (assigned p entry) fired c)) :
    (processEntryForDomain E p s domain entry).2.EachCore P := by
  have hturns : ∀ (sids : List SessionId) (x : Turns), x.sessions.EachCore P →
      (sids.foldl (sessionTurn E domain (assigned p entry)) x).sessions.EachCore P := by
    intro sids
    induction sids with
    | nil => exact fun _ h => h
    | cons sid sids ih =>
      intro x hx
      exact ih _ (hx.of_atId (hturn _) fun other => bound_sessionTurn domain other x sid)
  exact hturns _ ⟨p.assignSeq, s, false⟩ h

end Logmon
