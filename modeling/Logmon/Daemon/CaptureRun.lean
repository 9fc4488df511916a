/-
# Contexts over runs

A run of the daemon, from any state file, with what the triggers of one domain
promised kept beside it: each firing has the arrivals before it that its
pre-window reaches, the entry it fired on, and, while its session stays bound
to the domain, the arrivals after it that its post-window reaches. A session
is followed through its renames.

All of it is captured in every state reached (`trigger_captures_context`). An
arrival before the match counts if the buffer's capacity never was below the
pre-window from its arrival on. The seq counter must stay below the last
`u64`: at the last one the loss floor has nowhere to go, and after it a seq
names two records (`context_after_wrap`).

Key definitions: `FiredContext`, `CaptureRun`, `CaptureRun.step`, `CaptureRun.Inv`.
Key theorems: `CaptureRun.Inv.arrive`, `CaptureRun.Inv.step`,
`trigger_captures_context`.
-/
import Logmon.Daemon.Capture
import Logmon.Daemon.Persistence

namespace Logmon

open Lib LogPipeline SessionRegistry

/-! ### Sessions that entries have turns for -/

/-- An anonymous session is registered only while it is connected. -/
def SessionRegistry.Attended (s : SessionRegistry) : Prop :=
  s.EachCore fun id c => c.connected = true ∨ ∃ name, id = .named name

namespace SessionRegistry

variable {E : TextEnv} {parseFilter : String → Except String ParsedFilter} {s s' : SessionRegistry} {domain : DomainId}
  {now : ℕ} {id : SessionId} {st : SessionState}

theorem Attended.insert (h : s.Attended) (hst : st.connected = true ∨ ∃ name, id = .named name) :
    (s.insert id st).Attended := by
  intro id' st' hst'
  rw [get?_insert] at hst'
  split at hst'
  · rename_i he
    obtain rfl := Option.some.inj hst'
    rw [he]
    exact hst
  · exact h id' st' hst'

theorem Attended.erase (h : s.Attended) (id : SessionId) : (s.erase id).Attended := by
  intro id' st' hst'
  rw [get?_erase] at hst'
  split at hst'
  · cases hst'
  · exact h id' st' hst'

theorem Attended.modify {f : SessionState → SessionState} (h : s.Attended)
    (hf : ∀ st, s.get? id = some st → (f st).connected = st.connected ∨ ∃ name, id = .named name) :
    (s.modify id f).Attended := by
  intro id' st' hst'
  rw [get?_modify] at hst'
  split at hst'
  · rename_i he
    obtain ⟨st, hst, rfl⟩ := Option.map_eq_some_iff.mp hst'
    rw [he] at hst
    rcases hf st hst with hsame | hnamed
    · rcases h id st hst with hconn | hnamed
      · exact .inl (hsame.trans hconn)
      · exact .inr (he ▸ hnamed)
    · exact .inr (he ▸ hnamed)
  · exact h id' st' hst'

theorem Attended.after (h : s.Attended) (op : SessionOp) : (s.after parseFilter now op).Attended := by
  unfold SessionRegistry.after
  split
  · rename_i s' happly
    cases effect_of_apply happly with
    | createAnonymous uuid => exact h.insert (.inl rfl)
    | createNamed name => exact h.insert (.inr ⟨name, rfl⟩)
    | claimNew name => exact h.insert (.inr ⟨name, rfl⟩)
    | claimOld => exact h.modify fun _ _ => .inr ⟨_, rfl⟩
    | reconnect => exact h.modify fun _ _ => .inr ⟨_, rfl⟩
    | disconnectAnonymous uuid => exact h.erase _
    | disconnectNamed name => exact h.modify fun _ _ => .inr ⟨_, rfl⟩
    | renameSame => exact h
    | rename => exact ((h.erase _).erase _).insert (.inr ⟨_, rfl⟩)
    | notDisposed => exact h
    | disposed => exact h.erase _
    | dropSession => exact h.erase _
    | setDomain id domain =>
      refine h.modify fun st _ => .inl ?_
      unfold rebind
      split <;> rfl
    | setClientInfo id info => exact h.modify fun _ _ => .inl rfl
    | drainNotifications id => exact h.modify fun _ _ => .inl rfl
    | own hr hst hf =>
      rename_i st st'
      refine h.modify fun st0 hst0 => .inl ?_
      rw [hst] at hst0
      obtain rfl := Option.some.inj hst0
      rw [own_keeps hr hf]
  · exact h

theorem attended_restoreAll (env : ParseEnv) (now : ℕ) (saved : List (SessionName × PersistedSession)) :
    (restoreAll env now saved).1.Attended := by
  intro id st hst
  obtain ⟨q, -, hid, -⟩ := mem_of_get?_restoreAll hst
  exact .inr ⟨q.1, hid⟩

/-- Such a session has a turn. -/
theorem Attended.active (h : s.Attended) {c : SessionState} (hmem : (id, c) ∈ s.bound domain) :
    id ∈ s.activeSessionIdsSortedByPreWindowForDomain domain := by
  obtain ⟨st, hst, hd, -⟩ := mem_bound.mp hmem
  refine mem_activeSessionIds.mpr ⟨st, hst, hd, ?_⟩
  rcases h id st hst with hconn | ⟨name, rfl⟩
  · rw [show st.connected = true from hconn]
    rfl
  · rw [Bool.or_true]

/-- And only one. -/
theorem nodup_activeSessionIds (s : SessionRegistry) (domain : DomainId) :
    (s.activeSessionIdsSortedByPreWindowForDomain domain).Nodup := by
  unfold activeSessionIdsSortedByPreWindowForDomain
  refine ((List.perm_insertionSort _ _).map Prod.fst).nodup_iff.mpr ?_
  rw [List.map_map]
  exact s.sessions.nodup.sublist (List.filter_sublist.map Prod.fst)

/-! ### Windows that stay open -/

/-- No session leaves the domain, and no window of one shrinks. -/
def KeepsWindows (domain : DomainId) (s s' : SessionRegistry) : Prop :=
  ∀ id c, (id, c) ∈ s.bound domain →
    ∃ c', (id, c') ∈ s'.bound domain ∧ c.postWindowRemaining ≤ c'.postWindowRemaining

theorem keepsWindows_of_bound (h : s'.bound domain = s.bound domain) : KeepsWindows domain s s' :=
  fun _ c hc => ⟨c, h ▸ hc, le_rfl⟩

theorem spanCore_frame (matched : ParsedFilter → Bool) (c : SessionState) :
    (spanCore matched c).postWindowRemaining = c.postWindowRemaining ∧ (spanCore matched c).connected = c.connected :=
  dropOneshots_frame _ c

/-- A span closes no window. -/
theorem keepsWindows_processSpan (p : LogPipeline) (s : SessionRegistry) (other : DomainId) (span : IncomingSpan) :
    KeepsWindows domain s (processSpanForDomain p s other span).2 := by
  have hturns : ∀ (sids : List SessionId) (x : SpanTurns), KeepsWindows domain s x.sessions →
      KeepsWindows domain s (sids.foldl (spanTurn (span.matched p.nextSeq) (span.event p.nextSeq)) x).sessions := by
    intro sids
    induction sids with
    | nil => exact fun _ h => h
    | cons sid sids ih =>
      intro x h
      refine ih _ fun id c hc => ?_
      obtain ⟨c', hc', hle⟩ := h id c hc
      rw [bound_spanTurn]
      refine ⟨if id = sid then spanCore (span.matched p.nextSeq) c' else c', List.mem_map.mpr ⟨_, hc', ?_⟩, ?_⟩
      · dsimp only
        split <;> rfl
      · split
        · rw [(spanCore_frame _ c').1]
          exact hle
        · exact hle
  exact hturns _ ⟨p.assignSeq, s, false⟩ (keepsWindows_of_bound rfl)

/-- The id under which a session is found after an operation, unless another
session took it. -/
def relocated (now : ℕ) (s : SessionRegistry) (id : SessionId) : SessionOp → Option SessionId
  | .createAnonymous uuid => if id = .anonymous uuid then none else some id
  | .rename old text =>
    match s.rename old text now with
    | .error _ => some id
    | .ok (_, new, _) => if id = old then some new else if id = new then none else some id
  | _ => some id

/-- The same, while the session stays bound to the domain. -/
def follow (parseFilter : String → Except String ParsedFilter) (now : ℕ) (s : SessionRegistry) (domain : DomainId)
    (op : SessionOp) (id : SessionId) : Option SessionId :=
  (s.relocated now id op).filter fun id =>
    match (s.after parseFilter now op).get? id with
    | none => false
    | some st => st.domain = domain

/-- A renamed session keeps its window, and so do those whose names stay. -/
theorem renamed_window {old id' : SessionId} {text : String} {st' : SessionState} (hst : s.get? id = some st)
    (hmoved : s.relocated now id (.rename old text) = some id')
    (hst' : (s.after parseFilter now (.rename old text)).get? id' = some st') :
    st'.postWindowRemaining = st.postWindowRemaining := by
  have hsame : s.get? id = some st' → st'.postWindowRemaining = st.postWindowRemaining := by
    intro h
    rw [hst] at h
    rw [Option.some.inj h]
  simp only [relocated] at hmoved
  simp only [SessionRegistry.after, SessionRegistry.apply] at hst'
  split at hmoved
  · rename_i e he
    rw [he] at hst'
    obtain rfl := Option.some.inj hmoved
    exact hsame hst'
  · rename_i s1 new displaced he
    rw [he] at hst'
    obtain ⟨name, -, rfl, ⟨rfl, rfl⟩ | ⟨st0, hold, hst0, -, -, hget⟩⟩ := rename_ok he
    · have hid : id' = id := by
        split at hmoved
        · rename_i heq
          rw [heq]
          exact (Option.some.inj hmoved).symm
        · exact (Option.some.inj hmoved).symm
      exact hsame (hid ▸ hst')
    · have hlookup : s1.get? id' = some st' := hst'
      rw [hget] at hlookup
      split at hmoved
      · rename_i heq
        obtain rfl := Option.some.inj hmoved
        rw [if_pos rfl] at hlookup
        rw [← heq, hst] at hst0
        rw [← Option.some.inj hlookup, Option.some.inj hst0]
      · rename_i hne
        split at hmoved
        · cases hmoved
        · rename_i hnew
          obtain rfl := Option.some.inj hmoved
          rw [if_neg hnew, if_neg hne] at hlookup
          exact hsame hlookup

/-- A session that an operation leaves in its domain keeps its window. -/
theorem relocated_window {op : SessionOp} {id' : SessionId} {st' : SessionState} (hst : s.get? id = some st)
    (hmoved : s.relocated now id op = some id') (hst' : (s.after parseFilter now op).get? id' = some st')
    (hd : st'.domain = st.domain) : st'.postWindowRemaining = st.postWindowRemaining := by
  by_cases hrename : ∃ old text, op = .rename old text
  · obtain ⟨old, text, rfl⟩ := hrename
    exact renamed_window hst hmoved hst'
  have hop : ∀ old text, op ≠ .rename old text := fun old text he => hrename ⟨old, text, he⟩
  have hfound : ∀ {st0 : SessionState}, s.get? id = some st0 → st0.postWindowRemaining = st.postWindowRemaining := by
    intro st0 h
    rw [hst] at h
    obtain rfl := Option.some.inj h
    rfl
  -- a change of one session that keeps the windows of its domain
  have hmodify : ∀ {target : SessionId} {f : SessionState → SessionState}, (s.modify target f).get? id = some st' →
      (∀ st0, (f st0).domain = st0.domain → (f st0).postWindowRemaining = st0.postWindowRemaining) →
      st'.postWindowRemaining = st.postWindowRemaining := by
    intro target f h hf
    rw [get?_modify, hst] at h
    split at h
    · obtain rfl := Option.some.inj h
      exact hf st hd
    · rw [← Option.some.inj h]
  have herase : ∀ {target : SessionId}, (s.erase target).get? id = some st' →
      st'.postWindowRemaining = st.postWindowRemaining := by
    intro target h
    rw [get?_erase] at h
    split at h
    · cases h
    · exact hfound h
  have hinsert : ∀ {name : SessionName} {new : SessionState}, s.get? (.named name) = none →
      (s.insert (.named name) new).get? id = some st' → st'.postWindowRemaining = st.postWindowRemaining := by
    intro name new hnone h
    rw [get?_insert] at h
    split at h
    · rename_i he
      rw [he, hnone] at hst
      cases hst
    · exact hfound h
  unfold SessionRegistry.after at hst'
  split at hst'
  · rename_i s' happly
    cases effect_of_apply happly with
    | createAnonymous uuid =>
      simp only [relocated] at hmoved
      split at hmoved
      · cases hmoved
      · rename_i hne
        obtain rfl := Option.some.inj hmoved
        rw [get?_insert, if_neg hne] at hst'
        exact hfound hst'
    | createNamed name _ hnone =>
      obtain rfl := Option.some.inj hmoved
      exact hinsert hnone hst'
    | claimNew name _ hnone =>
      obtain rfl := Option.some.inj hmoved
      exact hinsert hnone hst'
    | claimOld =>
      obtain rfl := Option.some.inj hmoved
      exact hmodify hst' fun _ _ => rfl
    | reconnect =>
      obtain rfl := Option.some.inj hmoved
      exact hmodify hst' fun _ _ => rfl
    | disconnectAnonymous uuid =>
      obtain rfl := Option.some.inj hmoved
      exact herase hst'
    | disconnectNamed name =>
      obtain rfl := Option.some.inj hmoved
      exact hmodify hst' fun _ _ => rfl
    | renameSame name => exact absurd rfl (hop _ _)
    | rename hold hst0 hanon hex => exact absurd rfl (hop _ _)
    | notDisposed =>
      obtain rfl := Option.some.inj hmoved
      exact hfound hst'
    | disposed =>
      obtain rfl := Option.some.inj hmoved
      exact herase hst'
    | dropSession =>
      obtain rfl := Option.some.inj hmoved
      exact herase hst'
    | setDomain target domain =>
      obtain rfl := Option.some.inj hmoved
      refine hmodify hst' fun st0 hsame => ?_
      unfold rebind at hsame ⊢
      split
      · rfl
      · rename_i hne
        rw [if_neg hne] at hsame
        exact absurd hsame.symm hne
    | setClientInfo target info =>
      obtain rfl := Option.some.inj hmoved
      exact hmodify hst' fun _ _ => rfl
    | drainNotifications target =>
      obtain rfl := Option.some.inj hmoved
      exact hmodify hst' fun _ _ => rfl
    | own hr hst0 hf =>
      obtain rfl := Option.some.inj hmoved
      rw [get?_modify] at hst'
      split at hst'
      · rename_i he
        rw [hst] at hst'
        rw [← he] at hst0
        have hold := hfound hst0
        have hpost := congrArg SessionState.postWindowRemaining (own_keeps hr hf)
        rw [← Option.some.inj hst']
        exact hpost.trans hold
      · exact hfound hst'
  · rename_i e happly
    have hid : id' = id := by
      cases op with
      | createAnonymous uuid => cases happly
      | rename old text => exact absurd rfl (hop _ _)
      | _ => exact (Option.some.inj hmoved).symm
    rw [hid] at hst'
    exact hfound hst'

/-- **A session that stays in the domain keeps its window.** -/
theorem follow_window {op : SessionOp} {id' : SessionId} {c : SessionState} (hc : (id, c) ∈ s.bound domain)
    (hf : s.follow parseFilter now domain op id = some id') :
    ∃ c', (id', c') ∈ (s.after parseFilter now op).bound domain ∧ c.postWindowRemaining ≤ c'.postWindowRemaining := by
  obtain ⟨st, hst, hd, rfl⟩ := mem_bound.mp hc
  obtain ⟨hmoved, hthere⟩ := Option.filter_eq_some_iff.mp hf
  split at hthere
  · cases hthere
  · rename_i st' hst'
    have hd' : st'.domain = domain := by simpa using hthere
    have hwindow := relocated_window hst hmoved hst' (hd'.trans hd.symm)
    exact ⟨st'.core, mem_bound.mpr ⟨st', hst', hd', rfl⟩, le_of_eq hwindow.symm⟩

end SessionRegistry

/-! ### Runs and what they owe -/

/-- What a firing promised. -/
structure FiredContext where
  /-- Its session, under the id it has now, until it leaves the domain. -/
  session : Option SessionId
  fired : TriggerMatch
  /-- The arrivals its pre-window reaches. -/
  before : List LogEntry
  entry : LogEntry
  /-- The arrivals its post-window has reached so far. -/
  later : List LogEntry

namespace FiredContext

def context (f : FiredContext) : List LogEntry := f.before ++ f.entry :: f.later

/-- How many arrivals its post-window still reaches. -/
def left (f : FiredContext) : ℕ := f.fired.postWindow - f.later.length

/-- A trigger fires on `entry`. `recent` has what arrived before, newest
first, each with the least capacity of the buffer since. -/
def new (recent : List (LogEntry × ℕ)) (entry : LogEntry) (q : SessionId × TriggerMatch) : FiredContext where
  session := some q.1
  fired := q.2
  before := ((recent.take q.2.preWindow).filter fun r => q.2.preWindow ≤ r.2).map Prod.fst
  entry
  later := []

/-- The next entry arrives. -/
def see (entry : LogEntry) (f : FiredContext) : FiredContext :=
  if f.session.isSome ∧ 0 < f.left then { f with later := f.later ++ [entry] } else f

def follow (g : SessionId → Option SessionId) (f : FiredContext) : FiredContext := { f with session := f.session.bind g }

end FiredContext

/-- The daemon, and what one domain's triggers promised. -/
structure CaptureRun where
  daemon : Daemon
  /-- What arrived, newest first, each with the least capacity that the
  pre-trigger buffer has had since. -/
  recent : List (LogEntry × ℕ)
  firings : List FiredContext

namespace CaptureRun

def arrived (s : CaptureRun) : List LogEntry := (s.recent.map Prod.fst).reverse

/-- The capacity is now this. -/
def lowered (s : CaptureRun) (capacity : ℕ) : List (LogEntry × ℕ) := s.recent.map fun q => (q.1, min q.2 capacity)

section Step

variable (E : TextEnv) (parseFilter : String → Except String ParsedFilter) (domain : DomainId)

def step (s : CaptureRun) (a : DaemonAct) : Option CaptureRun :=
  let daemon := s.daemon.step E parseFilter a
  let capacity := (daemon.pipelines domain).preBuffer.capacity
  let recent := s.lowered capacity
  match a with
  | .arrive other entry =>
    if other = domain then
      let e := assigned (s.daemon.pipelines domain) entry
      let fired := firingsFor E (s.daemon.pipelines domain) s.daemon.sessions domain entry
      some ⟨daemon, (e, capacity) :: recent, s.firings.map (FiredContext.see e) ++ fired.map (FiredContext.new s.recent e)⟩
    else some ⟨daemon, recent, s.firings⟩
  | .session now op =>
    some ⟨daemon, recent, s.firings.map (FiredContext.follow (s.daemon.sessions.follow parseFilter now domain op))⟩
  | _ => some ⟨daemon, recent, s.firings⟩

/-- The domain's seq counter stays below the last `u64`. -/
def counts (s : CaptureRun) : DaemonAct → Prop
  | .arrive other _ => other = domain → (s.daemon.pipelines domain).seq + 1 < u64Max
  | .span other _ => other = domain → (s.daemon.pipelines domain).seq + 1 < u64Max
  | _ => True

end Step

/-- Every promise is kept so far, and can be kept. -/
structure Inv (domain : DomainId) (s : CaptureRun) : Prop where
  sound : Sound s.arrived (s.daemon.pipelines domain)
  assigned : ∀ y ∈ s.arrived, y.seq ≤ (s.daemon.pipelines domain).seq ∧ y.seq < u64Max
  ordered : (s.daemon.pipelines domain).preBuffer.Ordered
  covered : RecentCovered s.recent (fun _ => True) (s.daemon.pipelines domain)
  attended : s.daemon.sessions.Attended
  windows : ∀ f ∈ s.firings, ∀ id, f.session = some id →
    ∃ c, (id, c) ∈ s.daemon.sessions.bound domain ∧ f.left ≤ c.postWindowRemaining
  captured : ∀ f ∈ s.firings, ∀ y ∈ f.context, y ∈ s.arrived ∧ (s.daemon.pipelines domain).Captured y

variable {E : TextEnv} {parseFilter : String → Except String ParsedFilter} {domain : DomainId} {s s' : CaptureRun}

theorem arrived_lowered (s : CaptureRun) (capacity : ℕ) :
    ((s.lowered capacity).map Prod.fst).reverse = s.arrived := by
  unfold lowered arrived
  rw [List.map_map]
  rfl

theorem mem_arrived {q : LogEntry × ℕ} (h : q ∈ s.recent) : q.1 ∈ s.arrived :=
  List.mem_reverse.mpr (List.mem_map_of_mem h)

theorem getElem?_lowered {capacity i f : ℕ} {y : LogEntry} (h : (s.lowered capacity)[i]? = some (y, f)) :
    ∃ f0, s.recent[i]? = some (y, f0) ∧ f = min f0 capacity := by
  unfold lowered at h
  rw [List.getElem?_map] at h
  obtain ⟨q, hq, heq⟩ := Option.map_eq_some_iff.mp h
  obtain ⟨rfl, rfl⟩ := Prod.mk.inj heq
  exact ⟨q.2, hq, rfl⟩

/-- Between arrivals the buffer is resized at most. -/
theorem Inv.quiet (h : s.Inv domain) {d : Daemon} {g : SessionId → Option SessionId}
    (hkeep : (s.daemon.pipelines domain).KeepsCaptured (d.pipelines domain))
    (hsound : Sound s.arrived (d.pipelines domain)) (hseq : (s.daemon.pipelines domain).seq ≤ (d.pipelines domain).seq)
    (hbuffer : (d.pipelines domain).preBuffer = (s.daemon.pipelines domain).preBuffer ∨
      ∃ n, (d.pipelines domain).preBuffer = (s.daemon.pipelines domain).preBuffer.resize n)
    (hattended : d.sessions.Attended)
    (hwindows : ∀ id c id', (id, c) ∈ s.daemon.sessions.bound domain → g id = some id' →
      ∃ c', (id', c') ∈ d.sessions.bound domain ∧ c.postWindowRemaining ≤ c'.postWindowRemaining) :
    Inv domain ⟨d, s.lowered (d.pipelines domain).preBuffer.capacity, s.firings.map (FiredContext.follow g)⟩ := by
  have harrived : arrived ⟨d, s.lowered (d.pipelines domain).preBuffer.capacity, s.firings.map (FiredContext.follow g)⟩ =
      s.arrived := arrived_lowered s _
  refine ⟨?_, fun y hy => ?_, ?_, fun i y f hi hf _ => ?_, hattended, fun f hf id hid => ?_, fun f hf y hy => ?_⟩
  · rw [harrived]
    exact hsound
  · rw [harrived] at hy
    obtain ⟨h1, h2⟩ := h.assigned y hy
    exact ⟨le_trans h1 hseq, h2⟩
  · show (d.pipelines domain).preBuffer.Ordered
    rcases hbuffer with hb | ⟨n, hb⟩
    · rw [hb]
      exact h.ordered
    · rw [hb]
      exact h.ordered.resize n
  · obtain ⟨f0, hi0, rfl⟩ := getElem?_lowered hi
    rcases h.covered i y f0 hi0 (lt_of_lt_of_le hf (min_le_left _ _)) trivial with hc | hb
    · exact .inl (hkeep y hc)
    · right
      have hcap := lt_of_lt_of_le hf (min_le_right _ _)
      show (d.pipelines domain).preBuffer.Buffered i y
      rcases hbuffer with hsame | ⟨n, hsame⟩
      · rw [hsame]
        exact hb
      · rw [hsame] at hcap ⊢
        exact hb.resize hcap
  · obtain ⟨f0, hf0, rfl⟩ := List.mem_map.mp hf
    obtain ⟨id0, hid0, hg⟩ := Option.bind_eq_some_iff.mp hid
    obtain ⟨c, hc, hle⟩ := h.windows f0 hf0 id0 hid0
    obtain ⟨c', hc', hle'⟩ := hwindows id0 c id hc hg
    exact ⟨c', hc', le_trans hle hle'⟩
  · obtain ⟨f0, hf0, rfl⟩ := List.mem_map.mp hf
    obtain ⟨h1, h2⟩ := h.captured f0 hf0 y hy
    rw [harrived]
    exact ⟨h1, hkeep y h2⟩

theorem follow_some (firings : List FiredContext) : firings.map (FiredContext.follow some) = firings := by
  refine (List.map_congr_left fun f _ => ?_).trans (List.map_id firings)
  unfold FiredContext.follow
  rw [Option.bind_fun_some]
  rfl

/-- The same, where no session moves. -/
theorem Inv.still (h : s.Inv domain) {d : Daemon}
    (hkeep : (s.daemon.pipelines domain).KeepsCaptured (d.pipelines domain))
    (hsound : Sound s.arrived (d.pipelines domain)) (hseq : (s.daemon.pipelines domain).seq ≤ (d.pipelines domain).seq)
    (hbuffer : (d.pipelines domain).preBuffer = (s.daemon.pipelines domain).preBuffer ∨
      ∃ n, (d.pipelines domain).preBuffer = (s.daemon.pipelines domain).preBuffer.resize n)
    (hattended : d.sessions.Attended) (hwindows : KeepsWindows domain s.daemon.sessions d.sessions) :
    Inv domain ⟨d, s.lowered (d.pipelines domain).preBuffer.capacity, s.firings⟩ := by
  have hquiet := h.quiet (g := some) hkeep hsound hseq hbuffer hattended fun id c id' hc hid => by
    obtain rfl := Option.some.inj hid
    exact hwindows id c hc
  rw [follow_some] at hquiet
  exact hquiet

/-- And the pipeline is left alone. -/
theorem Inv.elsewhere (h : s.Inv domain) {d : Daemon} (hsame : d.pipelines domain = s.daemon.pipelines domain)
    (hattended : d.sessions.Attended) (hwindows : KeepsWindows domain s.daemon.sessions d.sessions) :
    Inv domain ⟨d, s.lowered (d.pipelines domain).preBuffer.capacity, s.firings⟩ :=
  h.still (by rw [hsame]; exact .refl _) (by rw [hsame]; exact h.sound) (by rw [hsame]) (.inl (by rw [hsame])) hattended
    hwindows

end CaptureRun

/-! ### One arrival -/

theorem mem_turnFirings {E : TextEnv} {domain : DomainId} {entry : LogEntry} {q : SessionId × TriggerMatch} :
    ∀ (sids : List SessionId) {x : Turns}, q ∈ turnFirings E domain entry sids x → q.1 ∈ sids
  | [], _, h => absurd h List.not_mem_nil
  | sid :: sids, x, h => by
    rw [turnFirings] at h
    rcases List.mem_append.mp h with h | h
    · obtain ⟨m, -, rfl⟩ := List.mem_map.mp h
      exact List.mem_cons_self
    · exact List.mem_cons_of_mem _ (mem_turnFirings sids h)

namespace CaptureRun

variable {E : TextEnv} {parseFilter : String → Except String ParsedFilter} {domain : DomainId} {s s' : CaptureRun}

/-- What an arrival leaves. -/
structure Arrived (E : TextEnv) (domain : DomainId) (s : CaptureRun) (entry e : LogEntry) (p : LogPipeline)
    (sessions : SessionRegistry) : Prop where
  sound : Sound (s.arrived ++ [e]) p
  seq : p.seq = e.seq
  ordered : p.preBuffer.Ordered
  covered : RecentCovered ((e, p.preBuffer.capacity) :: s.lowered p.preBuffer.capacity) (fun _ => True) p
  keeps : (s.daemon.pipelines domain).KeepsCaptured p
  /-- What fires has its context. -/
  fires : ∀ q ∈ firingsFor E (s.daemon.pipelines domain) s.daemon.sessions domain entry, p.Captured e ∧
    (∀ i y f, s.recent[i]? = some (y, f) → i < q.2.preWindow → q.2.preWindow ≤ f → p.Captured y) ∧
    ∃ c, (q.1, c) ∈ sessions.bound domain ∧ q.2.postWindow ≤ c.postWindowRemaining
  /-- Windows count down, and an open one captures the entry. -/
  sees : ∀ id c, (id, c) ∈ s.daemon.sessions.bound domain →
    (∃ c', (id, c') ∈ sessions.bound domain ∧ c.postWindowRemaining - 1 ≤ c'.postWindowRemaining) ∧
    (c.postWindowRemaining ≠ 0 → p.Captured e)

theorem Inv.arrives (h : s.Inv domain) (hseq : (s.daemon.pipelines domain).seq + 1 < u64Max) (entry : LogEntry) :
    Arrived E domain s entry (Logmon.assigned (s.daemon.pipelines domain) entry)
      (processEntryForDomain E (s.daemon.pipelines domain) s.daemon.sessions domain entry).1
      (processEntryForDomain E (s.daemon.pipelines domain) s.daemon.sessions domain entry).2 := by
  set p := s.daemon.pipelines domain with hp
  set e := Logmon.assigned p entry with he
  set sids := s.daemon.sessions.activeSessionIdsSortedByPreWindowForDomain domain with hsids
  set x0 : Turns := ⟨p.assignSeq, s.daemon.sessions, false⟩ with hx0
  set x := sids.foldl (sessionTurn E domain e) x0 with hx
  have hmem : e ∈ s.arrived ++ [e] := List.mem_append_right _ List.mem_cons_self
  have hsound : Sound (s.arrived ++ [e]) p.assignSeq :=
    h.sound.arrive (Nat.lt_of_succ_lt hseq) (fun y hy => (h.assigned y hy).1) entry
  have hrecent : ∀ q ∈ s.recent, q.1 ∈ s.arrived ++ [e] := fun q hq => List.mem_append_left _ (mem_arrived hq)
  have hstart : TurnInv (s.arrived ++ [e]) s.recent p.preBuffer.capacity domain x0 :=
    ⟨hsound, h.ordered, .inl ⟨h.covered.congr rfl rfl, rfl⟩⟩
  obtain ⟨hturns, hkeep1, hfires⟩ := @turns_capture E _ _ _ _ _ hmem hrecent sids x0 hstart
    fun sid hsid => mem_bound_of_active hsid
  have hseq1 : x.pipeline.seq = e.seq := (@sessionTurns_through E domain _ _ hmem sids x0 hsound).seq
  -- then the pre-trigger buffer, then the store
  set p1 := x.pipeline.preBufferAppend e with hp1
  have hsound1 : Sound (s.arrived ++ [e]) p1 := (preBufferAppend_through hturns.sound hmem).sound
  obtain ⟨hsound2, hkeep2, hown, hbuf2, hseq2⟩ :=
    @storeEntry_captures E _ domain _ _ hsound1 hmem x.sessions x.anyPostWindowActive
  set p2 := storeEntry E p1 x.sessions domain e x.anyPostWindowActive with hp2
  have hresult : processEntryForDomain E p s.daemon.sessions domain entry = (p2, x.sessions) := rfl
  rw [hresult]
  have hkeep : x.pipeline.KeepsCaptured p2 :=
    (@keepsCaptured_of_store x.pipeline p1 rfl).trans hkeep2
  have hcap : p2.preBuffer.capacity = x.pipeline.preBuffer.capacity := by
    rw [hbuf2]
    exact PreTriggerBuffer.append_capacity _ _
  refine ⟨hsound2, ?_, ?_, ?_, ?_, fun q hq => ?_, fun id c hc => ?_⟩
  · exact hseq2.trans hseq1
  · rw [hbuf2]
    exact hturns.ordered.append e
  · intro i y f hi hf _
    rw [hcap] at hi
    cases i with
    | zero =>
      obtain ⟨rfl, rfl⟩ := Prod.mk.inj (Option.some.inj hi)
      right
      rw [hbuf2]
      exact PreTriggerBuffer.buffered_append_self hf e
    | succ i =>
      obtain ⟨f0, hi0, rfl⟩ := getElem?_lowered hi
      have hcapacity : i + 1 < x.pipeline.preBuffer.capacity := lt_of_lt_of_le hf (min_le_right _ _)
      have hf0 : i < f0 := lt_of_lt_of_le (Nat.lt_of_succ_lt hf) (min_le_left _ _)
      have hcov : x.pipeline.Captured y ∨ x.pipeline.preBuffer.Buffered i y := by
        rcases hturns.covered with ⟨h1, -⟩ | ⟨h1, -⟩
        · exact h1 i y f0 hi0 hf0 trivial
        · exact h1 i y f0 hi0 hf0 (Nat.lt_of_succ_lt hcapacity)
      rcases hcov with hc | hb
      · exact .inl (hkeep y hc)
      · right
        rw [hbuf2]
        exact hb.append hcapacity e
  · exact ((@keepsCaptured_of_store p x0.pipeline rfl).trans hkeep1).trans hkeep
  · obtain ⟨h1, h2⟩ := hfires q hq
    obtain ⟨st, hst, hd⟩ := mem_bound_fst.mp (mem_bound_of_active (mem_turnFirings sids hq))
    obtain ⟨h3, -, h4⟩ := @turns_sessions E domain e q.1 sids x0 st.core (nodup_activeSessionIds _ _)
      (mem_bound.mpr ⟨st, hst, hd, rfl⟩)
    rw [if_pos (mem_turnFirings sids hq)] at h3
    exact ⟨hkeep _ h1, fun i y f hi hm hf => hkeep y (h2 i y f hi hm hf), _, h3,
      (turnCore_window E e _ _).2 q.2 (h4 q.2 hq).2⟩
  · obtain ⟨h1, h2, -⟩ := @turns_sessions E domain e id sids x0 c (nodup_activeSessionIds _ _) hc
    have hactive : id ∈ sids := h.attended.active hc
    rw [if_pos hactive] at h1
    exact ⟨⟨_, h1, (turnCore_window E e _ _).1⟩, fun hopen => hown (.inr (h2 hactive hopen))⟩

/-- **An arrival keeps every promise**, and the promises of what fires on it. -/
theorem Inv.arrive (h : s.Inv domain) (hseq : (s.daemon.pipelines domain).seq + 1 < u64Max) {entry : LogEntry}
    {d : Daemon}
    (hd : d.pipelines domain = (processEntryForDomain E (s.daemon.pipelines domain) s.daemon.sessions domain entry).1)
    (hds : d.sessions = (processEntryForDomain E (s.daemon.pipelines domain) s.daemon.sessions domain entry).2) :
    Inv domain ⟨d, (Logmon.assigned (s.daemon.pipelines domain) entry, (d.pipelines domain).preBuffer.capacity) ::
        s.lowered (d.pipelines domain).preBuffer.capacity,
      s.firings.map (FiredContext.see (Logmon.assigned (s.daemon.pipelines domain) entry)) ++
        (firingsFor E (s.daemon.pipelines domain) s.daemon.sessions domain entry).map
          (FiredContext.new s.recent (Logmon.assigned (s.daemon.pipelines domain) entry))⟩ := by
  have hleft := @Inv.arrives E _ _ h hseq entry
  rw [← hd, ← hds] at hleft
  set e := Logmon.assigned (s.daemon.pipelines domain) entry with he
  have hn : e.seq = (s.daemon.pipelines domain).seq + 1 := nextSeq_eq (Nat.lt_of_succ_lt hseq)
  have harrived : ∀ firings, arrived ⟨d, (e, (d.pipelines domain).preBuffer.capacity) ::
      s.lowered (d.pipelines domain).preBuffer.capacity, firings⟩ = s.arrived ++ [e] := by
    intro firings
    unfold arrived
    rw [List.map_cons, List.reverse_cons, arrived_lowered]
    rfl
  have hattended : d.sessions.Attended := by
    rw [hds]
    refine EachCore.processEntry h.attended fun fired id c hc => ?_
    rw [turnCore_connected]
    exact hc
  refine ⟨?_, fun y hy => ?_, hleft.ordered, hleft.covered, hattended, fun f hf id hid => ?_, fun f hf y hy => ?_⟩
  · rw [harrived]
    exact hleft.sound
  · show y.seq ≤ (d.pipelines domain).seq ∧ _
    rw [harrived] at hy
    rw [hleft.seq]
    rcases List.mem_append.mp hy with hy | hy
    · have := h.assigned y hy
      omega
    · rw [List.mem_singleton.mp hy]
      omega
  · rcases List.mem_append.mp hf with hf | hf
    · obtain ⟨f0, hf0, rfl⟩ := List.mem_map.mp hf
      have hid0 : f0.session = some id := by
        unfold FiredContext.see at hid
        split at hid <;> exact hid
      obtain ⟨c, hc, hle⟩ := h.windows f0 hf0 id hid0
      obtain ⟨⟨c', hc', hle'⟩, -⟩ := hleft.sees id c hc
      refine ⟨c', hc', ?_⟩
      have hsee : (f0.see e).left ≤ f0.left - 1 := by
        unfold FiredContext.see
        split
        · simp only [FiredContext.left, List.length_append, List.length_singleton]
          omega
        · rename_i hclosed
          rw [hid0] at hclosed
          have : f0.left = 0 := by simpa using hclosed
          omega
      omega
    · obtain ⟨q, hq, rfl⟩ := List.mem_map.mp hf
      obtain rfl := Option.some.inj hid
      exact (hleft.fires q hq).2.2
  · rw [harrived]
    rcases List.mem_append.mp hf with hf | hf
    · obtain ⟨f0, hf0, rfl⟩ := List.mem_map.mp hf
      have hold : ∀ z ∈ f0.context, z ∈ s.arrived ++ [e] ∧ (d.pipelines domain).Captured z := by
        intro z hz
        obtain ⟨h1, h2⟩ := h.captured f0 hf0 z hz
        exact ⟨List.mem_append_left _ h1, hleft.keeps z h2⟩
      unfold FiredContext.see at hy
      split at hy
      · rename_i hopen
        have hcontext : ({ f0 with later := f0.later ++ [e] } : FiredContext).context = f0.context ++ [e] := by
          simp [FiredContext.context]
        rw [hcontext] at hy
        rcases List.mem_append.mp hy with hy | hy
        · exact hold y hy
        · -- the session's window is open
          rw [List.mem_singleton.mp hy]
          obtain ⟨id, hid⟩ := Option.isSome_iff_exists.mp hopen.1
          obtain ⟨c, hc, hle⟩ := h.windows f0 hf0 id hid
          have hne : c.postWindowRemaining ≠ 0 := by
            have := hopen.2
            omega
          exact ⟨List.mem_append_right _ List.mem_cons_self, (hleft.sees id c hc).2 hne⟩
      · exact hold y hy
    · obtain ⟨q, hq, rfl⟩ := List.mem_map.mp hf
      obtain ⟨hown, hbefore, -⟩ := hleft.fires q hq
      rcases List.mem_append.mp hy with hy | hy
      · obtain ⟨r, hr, rfl⟩ := List.mem_map.mp hy
        obtain ⟨hr, hfloor⟩ := List.mem_filter.mp hr
        obtain ⟨i, hi⟩ := List.mem_iff_getElem?.mp hr
        obtain ⟨hlt, hi0⟩ : i < q.2.preWindow ∧ s.recent[i]? = some r := by
          rw [List.getElem?_take] at hi
          split at hi
          · exact ⟨‹_›, hi⟩
          · cases hi
        exact ⟨List.mem_append_left _ (mem_arrived (List.mem_of_getElem? hi0)),
          hbefore i r.1 r.2 hi0 hlt (by simpa using hfloor)⟩
      · rw [List.mem_singleton.mp hy]
        exact ⟨List.mem_append_right _ List.mem_cons_self, hown⟩

/-- A span takes a seq, and may resize the buffer. -/
theorem processSpan_pipeline (p : LogPipeline) (r : SessionRegistry) (domain : DomainId) (span : IncomingSpan) :
    (processSpanForDomain p r domain span).1.store = p.store ∧
    (processSpanForDomain p r domain span).1.seq = p.nextSeq ∧
    ((processSpanForDomain p r domain span).1.preBuffer = p.preBuffer ∨
      ∃ n, (processSpanForDomain p r domain span).1.preBuffer = p.preBuffer.resize n) := by
  have hmatches : ∀ (event : TriggerMatch → PipelineEvent) (sid : SessionId) (fired : List TriggerMatch)
      (x : LogPipeline × SessionRegistry), (fired.foldl (notifySpanMatch event sid) x).1.store = x.1.store ∧
        (fired.foldl (notifySpanMatch event sid) x).1.seq = x.1.seq ∧
        (fired.foldl (notifySpanMatch event sid) x).1.preBuffer = x.1.preBuffer := by
    intro event sid fired
    induction fired with
    | nil => exact fun x => ⟨rfl, rfl, rfl⟩
    | cons m fired ih => exact fun x => ih (notifySpanMatch event sid x m)
  have hturns : ∀ (sids : List SessionId) (x : SpanTurns),
      (sids.foldl (spanTurn (span.matched p.nextSeq) (span.event p.nextSeq)) x).pipeline.store = x.pipeline.store ∧
      (sids.foldl (spanTurn (span.matched p.nextSeq) (span.event p.nextSeq)) x).pipeline.seq = x.pipeline.seq ∧
      (sids.foldl (spanTurn (span.matched p.nextSeq) (span.event p.nextSeq)) x).pipeline.preBuffer =
        x.pipeline.preBuffer := by
    intro sids
    induction sids with
    | nil => exact fun x => ⟨rfl, rfl, rfl⟩
    | cons sid sids ih =>
      intro x
      obtain ⟨h1, h2, h3⟩ := ih (spanTurn (span.matched p.nextSeq) (span.event p.nextSeq) x sid)
      obtain ⟨h4, h5, h6⟩ := hmatches (span.event p.nextSeq sid) sid
        (x.sessions.evaluateSpanTriggers sid (span.matched p.nextSeq)).2
        (x.pipeline, (x.sessions.evaluateSpanTriggers sid (span.matched p.nextSeq)).1)
      exact ⟨h1.trans h4, h2.trans h5, h3.trans h6⟩
  obtain ⟨h1, h2, h3⟩ := hturns (r.activeSessionIdsForDomain domain) ⟨p.assignSeq, r, false⟩
  unfold processSpanForDomain
  dsimp only
  split
  · exact ⟨h1, h2, .inr ⟨_, congrArg (fun b => PreTriggerBuffer.resize b _) h3⟩⟩
  · exact ⟨h1, h2, .inl h3⟩

theorem Inv.span (h : s.Inv domain) (hseq : (s.daemon.pipelines domain).seq + 1 < u64Max) {span : IncomingSpan}
    {d : Daemon}
    (hd : d.pipelines domain = (processSpanForDomain (s.daemon.pipelines domain) s.daemon.sessions domain span).1)
    (hattended : d.sessions.Attended) (hwindows : KeepsWindows domain s.daemon.sessions d.sessions) :
    Inv domain ⟨d, s.lowered (d.pipelines domain).preBuffer.capacity, s.firings⟩ := by
  obtain ⟨hstore, hnext, hbuffer⟩ :=
    processSpan_pipeline (s.daemon.pipelines domain) s.daemon.sessions domain span
  rw [← hd] at hstore hnext hbuffer
  have hheld : ∀ y ∈ (d.pipelines domain).preBuffer.held, y ∈ (s.daemon.pipelines domain).preBuffer.held := by
    intro y hy
    rcases hbuffer with hb | ⟨n, hb⟩
    · rw [hb] at hy
      exact hy
    · rw [hb] at hy
      exact PreTriggerBuffer.mem_resize hy
  refine h.still (keepsCaptured_of_store hstore) ⟨?_, ?_, ?_, h.sound.distinct⟩ ?_ hbuffer hattended hwindows
  · rw [hstore]
    exact h.sound.wf
  · rw [hstore]
    exact h.sound.ring
  · exact fun y hy => h.sound.buffer y (hheld y hy)
  · rw [hnext, nextSeq_eq (Nat.lt_of_succ_lt hseq)]
    exact Nat.le_succ _

/-- **Every action keeps every promise.** -/
theorem Inv.step {a : DaemonAct} (h : s.Inv domain) (hc : s.counts domain a)
    (hs : s.step E parseFilter domain a = some s') : s'.Inv domain := by
  cases a with
  | arrive other entry =>
    simp only [CaptureRun.step] at hs
    split at hs
    · rename_i heq
      subst heq
      obtain rfl := Option.some.inj hs
      exact h.arrive (hc rfl) (Function.update_self _ _ _) rfl
    · rename_i hne
      obtain rfl := Option.some.inj hs
      refine h.elsewhere (Function.update_of_ne (Ne.symm hne) _ _) ?_
        (keepsWindows_of_bound (processEntryForDomain_elsewhere hne _ _ _))
      refine EachCore.processEntry h.attended fun fired id c hconn => ?_
      rw [turnCore_connected]
      exact hconn
  | span other span =>
    obtain rfl := Option.some.inj hs
    have hattended : (processSpanForDomain (s.daemon.pipelines other) s.daemon.sessions other span).2.Attended := by
      refine EachCore.processSpan h.attended fun id c hconn => ?_
      rw [(spanCore_frame _ c).2]
      exact hconn
    have hwindows := @keepsWindows_processSpan domain (s.daemon.pipelines other) s.daemon.sessions other span
    by_cases heq : other = domain
    · subst heq
      exact h.span (hc rfl) (Function.update_self _ _ _) hattended hwindows
    · exact h.elsewhere (Function.update_of_ne (Ne.symm heq) _ _) hattended hwindows
  | clear other =>
    obtain rfl := Option.some.inj hs
    by_cases heq : other = domain
    · subst heq
      have hd : (s.daemon.step E parseFilter (.clear other)).pipelines other = (s.daemon.pipelines other).clearLogs.1 :=
        Function.update_self _ _ _
      refine h.still ?_ ?_ ?_ ?_ h.attended (keepsWindows_of_bound rfl)
      · rw [hd]
        exact keepsCaptured_clear h.sound.wf _
      · rw [hd]
        exact (h.sound.clearThrough _).1
      · rw [hd]
        exact le_rfl
      · rw [hd]
        exact .inl rfl
    · exact h.elsewhere (Function.update_of_ne (Ne.symm heq) _ _) h.attended (keepsWindows_of_bound rfl)
  | resync other =>
    obtain rfl := Option.some.inj hs
    by_cases heq : other = domain
    · subst heq
      have hd : (s.daemon.step E parseFilter (.resync other)).pipelines other =
          (s.daemon.pipelines other).resizePreBuffer (s.daemon.sessions.maxPreWindowForDomain other) :=
        Function.update_self _ _ _
      refine h.still ?_ ?_ ?_ ?_ h.attended (keepsWindows_of_bound rfl)
      · rw [hd]
        exact keepsCaptured_of_store rfl
      · rw [hd]
        exact ⟨h.sound.wf, h.sound.ring, fun y hy => h.sound.buffer y (PreTriggerBuffer.mem_resize hy), h.sound.distinct⟩
      · rw [hd]
        exact le_rfl
      · rw [hd]
        exact .inr ⟨_, rfl⟩
    · exact h.elsewhere (Function.update_of_ne (Ne.symm heq) _ _) h.attended (keepsWindows_of_bound rfl)
  | session now op =>
    obtain rfl := Option.some.inj hs
    exact h.quiet (.refl _) h.sound le_rfl (.inl rfl) (h.attended.after op) fun id c id' hmem hf => follow_window hmem hf

end CaptureRun

/-! ### All runs -/

/-- A daemon that has just started, before anything arrives in the domain. -/
def CaptureRun.start (d : Daemon) : CaptureRun := ⟨d, [], []⟩

/-- **A trigger captures its context.** In every run of the daemon from any
state file, in which the domain's seq counter stays below the last `u64`, and
whatever sessions, triggers, filters, spans and clears there are: of every
trigger that fired in the domain, each arrival its pre-window reaches, the
entry it fired on and each arrival its post-window reaches is in the ring, or
below its loss floor or its admission floor. -/
theorem trigger_captures_context (E : TextEnv) (env : ParseEnv) (domain : DomainId) (now : ℕ)
    (saved : List (SessionName × PersistedSession)) (pipelines : DomainId → LogPipeline) (capacity : ℕ)
    (hcap : capacity ≤ u64Max) (initialSeq : ℕ) (hp : pipelines domain = .newWithSeq capacity hcap initialSeq)
    {s : CaptureRun}
    (hr : Reach (CaptureRun.step E env.parse domain) (CaptureRun.counts domain)
      (.start (.restarted env now saved pipelines)) s) :
    ∀ f ∈ s.firings, ∀ y ∈ f.context,
      (∃ e ∈ (s.daemon.pipelines domain).store.entries, e.SameRecord y) ∨
      y.seq < (s.daemon.pipelines domain).store.lostBelow ∨ y.seq < (s.daemon.pipelines domain).store.admitFrom := by
  have hstart : (CaptureRun.start (.restarted env now saved pipelines)).Inv domain := by
    have hfresh : (Daemon.restarted env now saved pipelines).pipelines domain = .newWithSeq capacity hcap initialSeq := hp
    refine ⟨?_, fun y hy => absurd hy List.not_mem_nil, ?_, fun i y f hi => ?_, attended_restoreAll env now saved,
      fun f hf => absurd hf List.not_mem_nil, fun f hf => absurd hf List.not_mem_nil⟩
    · show Sound [] ((Daemon.restarted env now saved pipelines).pipelines domain)
      rw [hfresh]
      exact sound_new capacity hcap initialSeq
    · show ((Daemon.restarted env now saved pipelines).pipelines domain).preBuffer.Ordered
      rw [hfresh]
      exact PreTriggerBuffer.ordered_new _
    · rw [show (CaptureRun.start (.restarted env now saved pipelines)).recent = [] from rfl] at hi
      cases hi
  have hinv : s.Inv domain := hr.invariant hstart fun _ _ _ h hg hs => h.step hg hs
  intro f hf y hy
  obtain ⟨hmem, hheld | hlost | hbelow⟩ := hinv.captured f hf y hy
  · exact .inl hheld
  · refine .inr (.inl ?_)
    have hlast := (hinv.assigned y hmem).2
    unfold Lost at hlost
    rw [satAdd_one hlast] at hlost
    exact hlost
  · exact .inr (.inr hbelow)

namespace CaptureRun

/-- No sessions, and every domain empty. -/
def boot : CaptureRun := .start (.restarted .ascii 0 [] fun _ => .newWithSeq 4 four_le_u64Max 0)

/-- Runs of the default domain. -/
def Runs (counts : CaptureRun → DaemonAct → Prop) : CaptureRun → CaptureRun → Prop :=
  Reach (CaptureRun.step .ascii ParseEnv.ascii.parse .default) counts

def saying (level : Level) (message : String) : LogEntry := { LogEntry.blank 0 with level, message }

end CaptureRun

open CaptureRun

namespace CaptureRun

/-- The check of the seq counter. -/
def countsBool (s : CaptureRun) : DaemonAct → Bool
  | .arrive _ _ => (s.daemon.pipelines .default).seq + 1 < u64Max
  | .span _ _ => false
  | _ => true

theorem counts_of_countsBool (s : CaptureRun) (a : DaemonAct) (h : s.countsBool a = true) : s.counts .default a := by
  cases a with
  | arrive other entry => exact fun _ => by simpa [countsBool] using h
  | span other span => cases h
  | clear => trivial
  | resync => trivial
  | session => trivial

/-- A session that stores nothing but what its triggers ask for, and an error
between two other entries. -/
def three : List DaemonAct :=
  [.session 0 (.createNamed "a"), .session 0 (.own (.named ⟨"a", noSlash_a⟩) (.addFilter "NONE" none)), .resync .default,
   .arrive .default (saying .info "before"), .arrive .default (saying .error "now"),
   .arrive .default (saying .info "after")]

end CaptureRun

theorem trigger_captures_context_of_three : ∃ s f, Runs (counts .default) boot s ∧ f ∈ s.firings ∧
    f.context.map LogEntry.message = ["before", "now", "after"] ∧
    ∀ y ∈ f.context, (∃ e ∈ (s.daemon.pipelines .default).store.entries, e.SameRecord y) ∨
      y.seq < (s.daemon.pipelines .default).store.lostBelow ∨ y.seq < (s.daemon.pipelines .default).store.admitFrom := by
  have hrun : (runActs (guarded (CaptureRun.step .ascii ParseEnv.ascii.parse .default) countsBool) boot three).map
      (fun s => s.firings.map fun f => f.context.map LogEntry.message) = some [["before", "now", "after"]] := by
    decide +kernel
  obtain ⟨s, hs, hfirings⟩ := Option.map_eq_some_iff.mp hrun
  obtain ⟨f, hf, hmessages⟩ := List.mem_map.mp (hfirings.symm ▸ List.mem_cons_self)
  have hr : Runs (counts .default) boot s := reach_guarded counts_of_countsBool three .start hs
  exact ⟨s, f, hr, hf, hmessages, trigger_captures_context .ascii .ascii .default 0 [] _ 4 (by decide) 0 rfl hr f hf⟩

/-! ### A counter that has wrapped -/

namespace CaptureRun

/-- A span that matches no trigger. -/
def unmatched : IncomingSpan :=
  ⟨fun _ _ => false, fun _ sid m => eventFor (.newWithSeq 4 four_le_u64Max 0) sid (.blank 0) 0 m⟩

/-- One entry has arrived, before there was any session, and spans have moved
the seq counter to `n`. -/
def onlyFirst (n : ℕ) : LogPipeline :=
  { (processEntryForDomain .ascii (.newWithSeq 4 four_le_u64Max 0) .new .default (saying .error "first")).1 with seq := n }

def counted (n : ℕ) : CaptureRun where
  daemon :=
    { pipelines := Function.update (fun _ => .newWithSeq 4 four_le_u64Max 0) .default (onlyFirst n)
      sessions := .new
      fired := Function.update (fun _ => []) .default [[]] }
  recent := [((saying .error "first").withSeq 1 one_le_u64Max, 0)]
  firings := []

theorem counted_pipeline (n : ℕ) : (counted n).daemon.pipelines .default = onlyFirst n := by
  simp only [counted, Function.update_self]

theorem counted_span (n : ℕ) :
    (counted n).step .ascii ParseEnv.ascii.parse .default (.span .default unmatched) =
      some (counted ((n + 1) % 2 ^ 64)) := by
  have hspan : processSpanForDomain (onlyFirst n) .new .default unmatched = (onlyFirst ((n + 1) % 2 ^ 64), .new) := rfl
  have hstep : (counted n).daemon.step .ascii ParseEnv.ascii.parse (.span .default unmatched) =
      (counted ((n + 1) % 2 ^ 64)).daemon := by
    simp only [Daemon.step, counted_pipeline]
    rw [show (counted n).daemon.sessions = .new from rfl, hspan]
    simp only [counted, Function.update_idem]
  simp only [CaptureRun.step, hstep, counted_pipeline]
  rfl

/-- Any number of spans. -/
theorem reach_counted (h : Runs (fun _ _ => True) boot (counted 1)) :
    ∀ k, Runs (fun _ _ => True) boot (counted ((1 + k) % 2 ^ 64))
  | 0 => h
  | k + 1 => by
    have hmod : (1 + (k + 1)) % 2 ^ 64 = ((1 + k) % 2 ^ 64 + 1) % 2 ^ 64 := by omega
    rw [hmod]
    exact .next (reach_counted h k) trivial (counted_span _)

/-- The session starts, and the error arrives. -/
def wrapped : Option CaptureRun :=
  runActs (guarded (CaptureRun.step .ascii ParseEnv.ascii.parse .default) fun _ _ => true) (counted 0)
    [.session 0 (.createNamed "a"), .arrive .default (saying .error "second")]

end CaptureRun

/-- **After the counter wrapped, a context can be missed.** An entry is stored
as 1, spans take the seqs after it, and the error that follows is assigned 1
again: a trigger fires on it, its seq is held, and it is not stored. -/
theorem context_after_wrap : ∃ s f y, Runs (fun _ _ => True) boot s ∧ f ∈ s.firings ∧ y ∈ f.context ∧
    ¬ ((∃ e ∈ (s.daemon.pipelines .default).store.entries, e.SameRecord y) ∨
      y.seq < (s.daemon.pipelines .default).store.lostBelow ∨ y.seq < (s.daemon.pipelines .default).store.admitFrom) := by
  have h1 : Runs (fun _ _ => True) boot (counted 1) :=
    .next (a := .arrive .default (saying .error "first")) .start trivial rfl
  have h2 := reach_counted h1 (2 ^ 64 - 1)
  have hzero : (1 + (2 ^ 64 - 1)) % 2 ^ 64 = 0 := by decide
  rw [hzero] at h2
  have hwrapped : wrapped.map (fun s =>
      (s.firings.map fun f => f.context.map fun y => (y.seq, y.message),
       (s.daemon.pipelines .default).store.entries.map LogEntry.message,
       (s.daemon.pipelines .default).store.lostBelow, (s.daemon.pipelines .default).store.admitFrom)) =
      some ([[(1, "second")]], ["first"], 0, 0) := by
    decide +kernel
  obtain ⟨s, hs, hfacts⟩ := Option.map_eq_some_iff.mp hwrapped
  simp only [Prod.mk.injEq] at hfacts
  obtain ⟨hfirings, hring, hlost, hadmitted⟩ := hfacts
  obtain ⟨f, hf, hcontext⟩ := List.mem_map.mp (hfirings.symm ▸ List.mem_cons_self)
  obtain ⟨y, hy, hsecond⟩ := List.mem_map.mp (hcontext.symm ▸ List.mem_cons_self)
  obtain ⟨-, hmessage⟩ := Prod.mk.inj hsecond
  refine ⟨s, f, y, reach_guarded (fun _ _ _ => trivial) _ h2 hs, hf, hy, ?_⟩
  rw [hlost, hadmitted]
  rintro (⟨e, he, hrec⟩ | h | h)
  · -- the ring has the other record of the seq
    have hfirst : e.message ∈ ["first"] := hring ▸ List.mem_map_of_mem he
    rw [show e.message = "second" from (congrArg LogEntry.message (show e.core = y.core from hrec)).trans hmessage] at hfirst
    exact absurd hfirst (by decide)
  · exact absurd h (Nat.not_lt_zero _)
  · exact absurd h (Nat.not_lt_zero _)

end Logmon
