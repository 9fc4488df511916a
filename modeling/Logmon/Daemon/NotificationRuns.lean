/-
# What reaches a client, and how often

Runs of `NoticeRun`. A notification that a session's queue took is drained by
one connection at most, once (`queued_once`); a connection writes what it
drained, in order, before anything else, and from then on what its channel
carried for its session (`live_exact`); what was broadcast before a connection
subscribed reaches it through the queue only (`heard_once`); and a session that
stays away finds what was offered it, in order, as far as its queue had room
(`away_queue`).

A notification can still be lost or doubled, between the two halves of a firing
and the two of a handshake: one queued before the claim and broadcast after the
subscription arrives twice, one offered after the claim and broadcast before
the subscription not at all.

Key definitions: `NoticeRun.Moves`, `NoticeRun.queuedCount`, `Conn.Told`,
`Conn.Counted`, `NoticeRun.StaysAway`.
Key theorems: `queued_once`, `live_exact`, `heard_once`, `away_queue`.
-/
import Logmon.Daemon.Notifications
import Logmon.Lib.Slot

namespace Logmon

open Lib

namespace Notices

/-- It has offered the notification to a queue. -/
def Firing.offers (e : PipelineEvent) (f : Firing) : Bool := f.stage ≠ .matched && f.event = e

/-- It has broadcast it. -/
def Firing.sends (e : PipelineEvent) (f : Firing) : Bool := f.stage = .sent && f.event = e

/-! ### One step -/

namespace Conn

/-- What a connection's step does to the sessions. -/
inductive Steps (s : NoticeRun) (c : ℕ) (id : SessionId) : OwnerRun → Prop
  | same : Steps s c id s.owners
  | bound (domain : DomainId) : Steps s c id (s.owners.put (s.owners.sessions.setDomain id domain))
  | drained : Steps s c id (s.owners.put (s.owners.sessions.drainNotifications id))
  | acted {owners : OwnerRun} {now : ℕ} {a : OwnerAct} {e : Option SessionError} :
    s.owners.act now a = some (owners, e) → (a.by? = none ∨ a.by? = some c) →
    (∀ c id, a ≠ .reconnectClaim c id) → Steps s c id owners

theorem Moves.steps {retained : ℕ} {s : NoticeRun} {c : ℕ} {id : SessionId} {k k' : Conn} {owners : OwnerRun}
    (h : k.Moves retained s c id owners k') : Steps s c id owners := by
  cases h with
  | bound _ domain => exact .bound domain
  | started => exact .drained
  | renamed _ ha => exact .acted ha (.inr rfl) (by simp)
  | handled _ ho =>
    cases ho with
    | same => exact .same
    | bound domain => exact .bound domain
    | dropped ha => exact .acted ha (.inl rfl) (by simp)
  | failed ha => exact .acted ha (.inr rfl) (by simp)
  | _ => exact .same

end Conn

namespace NoticeRun

variable {retained : ℕ} {s s' : NoticeRun}

/-- What a step can be. -/
inductive Moves (retained : ℕ) (s : NoticeRun) : NoticeRun → Prop
  | opened {owners : OwnerRun} {now : ℕ} {a : OwnerAct} {id : SessionId} : s.owners.act now a = some (owners, none) →
    a.by? = some s.conns.length → (∀ c id, a ≠ .reconnectClaim c id) → owners.held s.conns.length = some id →
    Moves retained s { s with owners, conns := s.conns ++ [.opened] }
  | conn {c : ℕ} {k k' : Conn} {id : SessionId} {owners : OwnerRun} : s.conns[c]? = some k →
    s.owners.held c = some id → k.Moves retained s c id owners k' →
    Moves retained s { s with owners, conns := s.conns.set c k' }
  | disposed {owners : OwnerRun} {now : ℕ} {id : SessionId} {ttl : ℕ} {e : Option SessionError} :
    s.owners.act now (.disposeIfExpired id ttl) = some (owners, e) → Moves retained s { s with owners }
  | domains (current : FMap DomainId ℕ) (made : ℕ) : Moves retained s { s with current, made }
  | fired (f : Firing) : f.stage = .matched → Moves retained s { s with firings := s.firings ++ [f] }
  | queued {i : ℕ} {f : Firing} : s.firings[i]? = some f → f.stage = .matched → Moves retained s (s.queue i f)
  | sent {i : ℕ} {f : Firing} : s.firings[i]? = some f → f.stage = .queued → Moves retained s (s.send i f)

theorem moves_of_step {a : NoticeAct} (h : s.step retained a = some s') : s.Moves retained s' := by
  have hopened : ∀ {now : ℕ} {a : OwnerAct}, a.by? = some s.conns.length → (∀ c id, a ≠ .reconnectClaim c id) →
      (∀ owners, s.owners.act now a = some (owners, none) → ∃ id, owners.held s.conns.length = some id) →
      s.opened (s.owners.act now a) = some s' → s.Moves retained s' := by
    intro now a hby hclaim hheld h
    unfold opened at h
    split at h
    · rename_i owners ha
      obtain rfl := Option.some.inj h
      obtain ⟨id, hid⟩ := hheld owners ha
      exact .opened ha hby hclaim hid
    · cases h
    · cases h
  cases a with
  | claim now name =>
    refine hopened rfl (by simp) (fun owners ha => ?_) h
    simp only [OwnerRun.act] at ha
    split at ha
    · exact OwnerRun.held_granted (Option.some.inj ha)
    · cases ha
  | anonymous now uuid =>
    refine hopened rfl (by simp) (fun owners ha => ?_) h
    simp only [OwnerRun.act] at ha
    split at ha
    · exact OwnerRun.held_granted (Option.some.inj ha)
    · cases ha
  | conn c a =>
    simp only [step] at h
    split at h
    · rename_i k id hk hid
      split at h
      · rename_i hrun
        obtain rfl := Option.some.inj h
        exact .conn hk hid (Conn.moves_of_run hrun)
      · cases h
    · cases h
  | dispose now id ttl =>
    simp only [step] at h
    split at h
    · rename_i ha
      obtain rfl := Option.some.inj h
      exact .disposed ha
    · cases h
  | createDomain id =>
    simp only [step] at h
    split at h
    · cases h
    · obtain rfl := Option.some.inj h
      exact .domains _ _
  | deleteDomain id =>
    simp only [step] at h
    split at h
    · cases h
    · obtain rfl := Option.some.inj h
      exact .domains _ _
  | fire sid channel event =>
    simp only [step] at h
    split at h
    · obtain rfl := Option.some.inj h
      exact .fired _ rfl
    · cases h
  | queue i =>
    simp only [step] at h
    split at h
    · rename_i hi
      split at h
      · rename_i hst
        obtain rfl := Option.some.inj h
        exact .queued hi hst
      · cases h
    · cases h
  | send i =>
    simp only [step] at h
    split at h
    · rename_i hi
      split at h
      · rename_i hst
        obtain rfl := Option.some.inj h
        exact .sent hi hst
      · cases h
    · cases h

/-! ### The start -/

end NoticeRun

theorem restoreFilters_quiet (env : ParseEnv) : ∀ (fs : List PersistedFilter) (st : SessionState),
    (fs.foldl (restoreFilter env) st).connected = st.connected ∧
      (fs.foldl (restoreFilter env) st).notificationQueue = st.notificationQueue ∧
      (fs.foldl (restoreFilter env) st).name = st.name
  | [], _ => ⟨rfl, rfl, rfl⟩
  | pf :: fs, st => by
    obtain ⟨h1, h2, h3⟩ := restoreFilters_quiet env fs (restoreFilter env st pf)
    rw [List.foldl_cons, h1, h2, h3]
    rcases @restoreFilter_cases env st pf with heq | ⟨_, _, _, heq⟩ <;> rw [heq] <;> exact ⟨rfl, rfl, rfl⟩

/-- A restored session is away, with nothing queued. -/
theorem restored_quiet (env : ParseEnv) (name : SessionName) (persisted : PersistedSession) (now : ℕ) :
    (SessionState.restored env name persisted now).connected = false ∧
      (SessionState.restored env name persisted now).notificationQueue = [] ∧
      (SessionState.restored env name persisted now).name = some name.text :=
  restoreFilters_quiet env persisted.filters _

theorem restoreAll_quiet (env : ParseEnv) (now : ℕ) (saved : List (SessionName × PersistedSession)) :
    ∀ id st, (restoreAll env now saved).1.get? id = some st →
      (st.connected = false ∧ ∃ name, id = .named name) ∧ st.notificationQueue = [] ∧ st.name.isSome = true := by
  intro id st hst
  obtain ⟨q, -, hid, rfl⟩ := mem_of_get?_restoreAll hst
  obtain ⟨hconn, hqueue, hname⟩ := restored_quiet env q.1 q.2 now
  exact ⟨⟨hconn, q.1, hid⟩, hqueue, by rw [hname]; rfl⟩

namespace NoticeRun

variable {retained : ℕ} {s s' : NoticeRun} {env : ParseEnv} {now : ℕ} {saved : List (SessionName × PersistedSession)}

/-! ### Who owns what -/

theorem rebind_connected (domain : DomainId) (st : SessionState) :
    (SessionRegistry.rebind domain st).connected = st.connected := by
  unfold SessionRegistry.rebind
  split <;> rfl

theorem inv_steps (h : s.owners.Inv) {c : ℕ} {id : SessionId} {owners : OwnerRun} (hs : Conn.Steps s c id owners) :
    owners.Inv := by
  cases hs with
  | same => exact h
  | bound domain => exact h.modify id (rebind_connected domain)
  | drained => exact h.modify id fun _ => rfl
  | acted ha => exact (h.act ha).1

theorem inv_step (h : s.owners.Inv) (hm : s.Moves retained s') : s'.owners.Inv := by
  cases hm with
  | opened ha => exact (h.act ha).1
  | conn _ _ hk => exact inv_steps h hk.steps
  | disposed ha => exact (h.act ha).1
  | domains => exact h
  | fired => exact h
  | queued =>
    refine h.modify _ fun st => ?_
    split <;> rfl
  | sent => exact h

theorem inv_of_reach (h : Reach (step retained) (fun _ _ => True) (boot env now saved) s) : s.owners.Inv :=
  h.invariant (I := fun s : NoticeRun => s.owners.Inv)
    (OwnerRun.inv_boot fun id st hst => (restoreAll_quiet env now saved id st hst).1)
    fun _ _ _ hi _ hs => inv_step hi (moves_of_step hs)

/-! ### Queues -/

/-- Copies of a notification in the sessions' queues. -/
def queuedCount (e : PipelineEvent) (r : SessionRegistry) : ℕ :=
  (r.sessions.entries.map fun q => q.2.notificationQueue.count e).sum

/-- Copies that connections have drained. -/
def drainedCount (e : PipelineEvent) (s : NoticeRun) : ℕ := (s.conns.map fun k => k.drained.count e).sum

/-- Firings of it that have come to a queue. -/
def offeredCount (e : PipelineEvent) (s : NoticeRun) : ℕ := s.firings.countP (Firing.offers e)

/-- Firings of it that were broadcast. -/
def sentCount (e : PipelineEvent) (s : NoticeRun) : ℕ := s.firings.countP (Firing.sends e)

variable {e : PipelineEvent} {r r' : SessionRegistry}

theorem queuedCount_modify (id : SessionId) (f : SessionState → SessionState) :
    queuedCount e (r.modify id f) + ((r.get? id).map fun st => st.notificationQueue.count e).getD 0 =
      queuedCount e r + ((r.get? id).map fun st => (f st).notificationQueue.count e).getD 0 :=
  FMap.sum_modify_add (fun st : SessionState => st.notificationQueue.count e) r.sessions id f

/-- A change that puts nothing on the session's queue. -/
theorem queuedCount_modify_le {id : SessionId} {f : SessionState → SessionState}
    (hf : ∀ st, (f st).notificationQueue.count e ≤ st.notificationQueue.count e) :
    queuedCount e (r.modify id f) ≤ queuedCount e r := by
  have hadd := queuedCount_modify (e := e) (r := r) id f
  cases hst : r.get? id with
  | none =>
    rw [hst] at hadd
    simpa using hadd.le
  | some st =>
    have hle := hf st
    rw [hst] at hadd
    simp only [Option.map_some, Option.getD_some] at hadd
    omega

theorem queuedCount_insert_le {id : SessionId} {st : SessionState} (hst : st.notificationQueue = []) :
    queuedCount e (r.insert id st) ≤ queuedCount e r := by
  refine FMap.sum_insert_le (fun st : SessionState => st.notificationQueue.count e) ?_
  rw [hst]
  exact Nat.zero_le _

theorem queuedCount_erase_le (id : SessionId) : queuedCount e (r.erase id) ≤ queuedCount e r :=
  FMap.sum_erase_le (fun st : SessionState => st.notificationQueue.count e) r.sessions id

/-- Sessions come with an empty queue, and take it along under a new name. -/
theorem queuedCount_effect {parseFilter : String → Except String ParsedFilter} {op : SessionOp}
    (h : op.Effect parseFilter now r r') : queuedCount e r' ≤ queuedCount e r := by
  cases h with
  | createAnonymous uuid => exact queuedCount_insert_le rfl
  | createNamed name => exact queuedCount_insert_le rfl
  | claimNew name => exact queuedCount_insert_le rfl
  | claimOld => exact queuedCount_modify_le fun _ => le_rfl
  | reconnect => exact queuedCount_modify_le fun _ => le_rfl
  | disconnectAnonymous uuid => exact queuedCount_erase_le _
  | disconnectNamed name => exact queuedCount_modify_le fun _ => le_rfl
  | renameSame name => exact le_rfl
  | @rename old name st hold hst =>
    -- the displaced session's queue goes, the renamed one's stays
    have hget : (r.erase (.named name)).get? old = some st := by
      rw [SessionRegistry.get?_erase, if_neg hold, hst]
    have hadd : queuedCount e ((r.erase (.named name)).erase old) + st.notificationQueue.count e =
        queuedCount e (r.erase (.named name)) := by
      have hsum := FMap.sum_erase_add (fun st : SessionState => st.notificationQueue.count e)
        (r.erase (.named name)).sessions old
      rw [show (r.erase (.named name)).sessions.get? old = some st from hget] at hsum
      exact hsum
    calc queuedCount e (((r.erase (.named name)).erase old).insert (.named name)
          { st with name := some name.text, lastSeen := now })
        ≤ st.notificationQueue.count e + queuedCount e ((r.erase (.named name)).erase old) :=
          Nat.add_le_add_left (FMap.sum_erase_le (fun st : SessionState => st.notificationQueue.count e) _ _) _
      _ = queuedCount e (r.erase (.named name)) := by rw [Nat.add_comm, hadd]
      _ ≤ queuedCount e r := queuedCount_erase_le _
  | notDisposed => exact le_rfl
  | disposed => exact queuedCount_erase_le _
  | dropSession => exact queuedCount_erase_le _
  | setDomain id domain =>
    refine queuedCount_modify_le fun st => ?_
    unfold SessionRegistry.rebind
    split
    · exact le_rfl
    · exact Nat.zero_le _
  | setClientInfo => exact queuedCount_modify_le fun _ => le_rfl
  | drainNotifications => exact queuedCount_modify_le fun _ => Nat.zero_le _
  | @own id req f st st' hf hst hfst =>
    have hqueue : st'.notificationQueue = st.notificationQueue := by rw [SessionRegistry.own_keeps hf hfst]
    have hadd := queuedCount_modify (e := e) (r := r) id fun _ => st'
    rw [hst] at hadd
    simp only [Option.map_some, Option.getD_some, hqueue] at hadd
    omega

theorem queuedCount_act {o o' : OwnerRun} {a : OwnerAct} {err : Option SessionError} (ha : o.act now a = some (o', err))
    (hclaim : ∀ c id, a ≠ .reconnectClaim c id) : queuedCount e o'.sessions ≤ queuedCount e o.sessions := by
  rcases OwnerRun.applies_of_act (fun _ => .error "") ha hclaim with hsame | ⟨op, hop, -⟩
  · rw [hsame]
  · exact queuedCount_effect (SessionRegistry.effect_of_apply hop)

/-- What a connection drains comes off its session's queue. -/
theorem queuedCount_moves {c : ℕ} {id : SessionId} {k k' : Conn} {owners : OwnerRun}
    (h : k.Moves retained s c id owners k') :
    queuedCount e owners.sessions + k'.drained.count e ≤ queuedCount e s.owners.sessions + k.drained.count e := by
  have hbound : ∀ domain, queuedCount e (s.owners.sessions.setDomain id domain) ≤ queuedCount e s.owners.sessions :=
    fun domain => queuedCount_effect
      (show SessionOp.Effect (fun _ => .error "") 0 s.owners.sessions (.setDomain id domain) _ from .setDomain id domain)
  cases h with
  | bound _ domain => exact Nat.add_le_add_right (hbound domain) _
  | started =>
    have hadd := queuedCount_modify (e := e) (r := s.owners.sessions) id fun st => { st with notificationQueue := [] }
    have hqueue : (s.owners.sessions.queueOf id).count e =
        ((s.owners.sessions.get? id).map fun st => st.notificationQueue.count e).getD 0 := by
      unfold SessionRegistry.queueOf
      cases s.owners.sessions.get? id <;> rfl
    have hempty : ((s.owners.sessions.get? id).map fun _ => ([] : List PipelineEvent).count e).getD 0 = 0 := by
      cases s.owners.sessions.get? id <;> rfl
    rw [hempty, ← hqueue] at hadd
    exact (le_of_eq hadd).trans (Nat.le_add_right _ _)
  | renamed _ ha => exact Nat.add_le_add_right (queuedCount_act ha (by simp)) _
  | handled _ ho =>
    refine Nat.add_le_add_right ?_ _
    cases ho with
    | same => exact le_rfl
    | bound domain => exact hbound domain
    | dropped ha => exact queuedCount_act ha (by simp)
  | failed ha => exact Nat.add_le_add_right (queuedCount_act ha (by simp)) _
  | _ => exact le_rfl

theorem queuedCount_queue (f : Firing) :
    queuedCount e (r.sendOrQueueNotification f.sid f.event) ≤ queuedCount e r + (decide (f.event = e)).toNat := by
  have hadd := queuedCount_modify (e := e) (r := r) f.sid fun st =>
    if !st.connected && st.name.isSome && st.notificationQueue.length < st.maxQueueSize then
      { st with notificationQueue := st.notificationQueue ++ [f.event] }
    else st
  cases hst : r.get? f.sid with
  | none =>
    rw [hst] at hadd
    exact (Nat.le_of_eq hadd).trans (Nat.le_add_right _ _)
  | some st =>
    have hcount : (if !st.connected && st.name.isSome && st.notificationQueue.length < st.maxQueueSize then
        { st with notificationQueue := st.notificationQueue ++ [f.event] } else st).notificationQueue.count e ≤
        st.notificationQueue.count e + (decide (f.event = e)).toNat := by
      split
      · rw [List.count_append, List.count_singleton]
        by_cases he : f.event = e <;> simp [he]
      · exact Nat.le_add_right _ _
    rw [hst] at hadd
    simp only [Option.map_some, Option.getD_some] at hadd
    have hle : queuedCount e (r.sendOrQueueNotification f.sid f.event) + st.notificationQueue.count e ≤
        queuedCount e r + (st.notificationQueue.count e + (decide (f.event = e)).toNat) :=
      (le_of_eq hadd).trans (Nat.add_le_add_left hcount _)
    omega

theorem queuedOnce_step (h : queuedCount e s.owners.sessions + drainedCount e s ≤ offeredCount e s)
    (hm : s.Moves retained s') : queuedCount e s'.owners.sessions + drainedCount e s' ≤ offeredCount e s' := by
  cases hm with
  | opened ha _ hclaim =>
    refine le_trans (Nat.add_le_add (queuedCount_act ha hclaim) (le_of_eq ?_)) h
    simp [drainedCount, Conn.opened]
  | @conn c k k' id owners hk _ hmove =>
    have hqueue := queuedCount_moves (e := e) hmove
    have hsum : drainedCount e { s with owners, conns := s.conns.set c k' } + k.drained.count e =
        drainedCount e s + k'.drained.count e := sum_set_add (fun k : Conn => k.drained.count e) hk
    have hle : queuedCount e owners.sessions + drainedCount e { s with owners, conns := s.conns.set c k' } ≤
        offeredCount e s := by omega
    exact hle
  | disposed ha => exact le_trans (Nat.add_le_add_right (queuedCount_act ha (by simp)) _) h
  | domains => exact h
  | fired f hf =>
    refine le_trans h (le_of_eq ?_)
    simp [offeredCount, Firing.offers, hf]
  | @queued i f hi hst =>
    have hqueue := queuedCount_queue (e := e) (r := s.owners.sessions) f
    have hset := countP_set_add (p := Firing.offers e) (y := { f with stage := .queued }) hi
    have hold : f.offers e = false := by simp [Firing.offers, hst]
    have hnew : Firing.offers e { f with stage := .queued } = decide (f.event = e) := by simp [Firing.offers]
    rw [hold, hnew] at hset
    have hcount : offeredCount e (s.queue i f) = offeredCount e s + (decide (f.event = e)).toNat := hset
    calc queuedCount e (s.owners.sessions.sendOrQueueNotification f.sid f.event) + drainedCount e s
        ≤ queuedCount e s.owners.sessions + (decide (f.event = e)).toNat + drainedCount e s :=
          Nat.add_le_add_right hqueue _
      _ ≤ offeredCount e s + (decide (f.event = e)).toNat := by omega
      _ = offeredCount e (s.queue i f) := hcount.symm
  | @sent i f hi hst =>
    have hset := countP_set_add (p := Firing.offers e) (y := { f with stage := .sent }) hi
    have hsame : Firing.offers e { f with stage := .sent } = f.offers e := by simp [Firing.offers, hst]
    rw [hsame] at hset
    have hcount : offeredCount e (s.send i f) = offeredCount e s := Nat.add_right_cancel hset
    rw [hcount]
    exact h

end NoticeRun

/-! ### What a connection has told its client -/

/-- The events a session's connection forwards. -/
def own (id : SessionId) (e : PipelineEvent) : Bool := e.sessionId = id.name.text

/-- How what a connection wrote stands to what it drained, and to what its
channel carried since it subscribed. -/
def Conn.Told (channels : ℕ → List PipelineEvent) (id : SessionId) (k : Conn) : Prop :=
  match k.stage with
  | .opening => k.written = [] ∧ k.drained = []
  | .draining left => k.written ++ left = k.drained
  | .live _ channel rx | .answering _ channel rx =>
    rx.Reads (own id) (channels channel) k.heard ∧ ∃ earlier, k.written = k.drained ++ earlier ++ k.heard
  | .closed => True

namespace Conn

variable {retained : ℕ} {s : NoticeRun} {c : ℕ} {id id' : SessionId} {k k' : Conn} {owners : OwnerRun}

/-- A subscription that begins: nothing is heard on it yet. -/
theorem told_subscribed (earlier : List PipelineEvent) (h : k.written = k.drained ++ earlier) (domain : DomainId)
    (channel : ℕ) : (k.subscribed s domain channel).Told s.channels id :=
  ⟨Subscription.reads_subscribe .., earlier, h.trans (List.append_nil _).symm⟩

theorem Steps.held (h : Steps s c id owners) {c' : ℕ} (hc : c' ≠ c) : owners.held c' = s.owners.held c' := by
  cases h with
  | same => rfl
  | bound => rfl
  | drained => rfl
  | acted ha hby =>
    refine OwnerRun.held_act ha fun hc' => ?_
    rcases hby with hby | hby <;> rw [hby] at hc'
    · cases hc'
    · exact hc (Option.some.inj hc').symm

/-- A closed connection stays closed. -/
theorem Moves.closed (hm : k.Moves retained s c id owners k') (h : k.stage = .closed) : k'.stage = .closed := by
  cases hm with
  | failed => rfl
  | moved hst =>
    rcases hst with hst | hst <;> rw [h] at hst <;> cases hst
  | bound hst | started hst | wrote hst | subscribed hst | heard hst | skipped hst | lagged hst | renamed hst
  | handled hst | answered hst =>
    rw [h] at hst
    cases hst

/-- Until it is closed it holds a session, under whose id it goes on. -/
theorem Moves.told (hm : k.Moves retained s c id owners k') (hid : s.owners.held c = some id)
    (h : k.Told s.channels id) : k'.stage = .closed ∨ ∃ id', owners.held c = some id' ∧ k'.Told s.channels id' := by
  unfold Told at h
  cases hm with
  | bound hst domain =>
    rw [hst] at h
    refine .inr ⟨id, hid, ?_⟩
    unfold Told
    rw [hst]
    exact h
  | started hst =>
    rw [hst] at h
    refine .inr ⟨id, hid, ?_⟩
    show k.written ++ _ = _
    rw [h.1, List.nil_append]
  | wrote hst =>
    rw [hst] at h
    refine .inr ⟨id, hid, ?_⟩
    show (k.written ++ [_]) ++ _ = k.drained
    rw [← h, List.append_assoc]
    rfl
  | subscribed hst domain channel =>
    rw [hst] at h
    exact .inr ⟨id, hid, told_subscribed [] (by rw [List.append_nil, ← h, List.append_nil]) ..⟩
  | heard hst hr he =>
    rw [hst] at h
    obtain ⟨hreads, earlier, hw⟩ := h
    have hvalue := hreads.value hr
    rw [if_pos (show own id _ = true from decide_eq_true he)] at hvalue
    refine .inr ⟨id, hid, hvalue, earlier, ?_⟩
    show k.written ++ _ = _
    rw [hw, List.append_assoc]
  | skipped hst hr he =>
    rw [hst] at h
    obtain ⟨hreads, hw⟩ := h
    have hvalue := hreads.value hr
    rw [if_neg (show ¬ own id _ = true from fun ho => he (of_decide_eq_true ho))] at hvalue
    exact .inr ⟨id, hid, hvalue, hw⟩
  | lagged hst hr =>
    rw [hst] at h
    exact .inr ⟨id, hid, h.1.lagged hr, h.2⟩
  | renamed hst ha =>
    rw [hst] at h
    obtain ⟨hreads, earlier, hw⟩ := h
    have hheld : ∃ id', owners.held c = some id' := by
      simp only [OwnerRun.act, hid] at ha
      split at ha
      · exact OwnerRun.held_granted (Option.some.inj ha)
      · cases ha
    obtain ⟨id', hid'⟩ := hheld
    refine .inr ⟨id', hid', Subscription.reads_rebase hreads.sent _, earlier ++ k.heard, ?_⟩
    rw [hw, List.append_nil, List.append_assoc]
  | handled hst ho =>
    rw [hst] at h
    have hheld : owners.held c = some id := by
      cases ho with
      | same => exact hid
      | bound => exact hid
      | dropped ha =>
        rw [OwnerRun.held_act ha (by simp [OwnerAct.by?])]
        exact hid
    exact .inr ⟨id, hheld, h⟩
  | answered hst =>
    rw [hst] at h
    exact .inr ⟨id, hid, h⟩
  | moved hst domain channel =>
    have hw : ∃ earlier, k.written = k.drained ++ earlier ++ k.heard := by
      rcases hst with hst | hst <;> rw [hst] at h <;> exact h.2
    obtain ⟨earlier, hw⟩ := hw
    exact .inr ⟨id, hid, told_subscribed (earlier ++ k.heard) (by rw [hw, List.append_assoc]) ..⟩
  | failed => exact .inl rfl

end Conn

namespace NoticeRun

variable {retained : ℕ} {s s' : NoticeRun} {env : ParseEnv} {now : ℕ} {saved : List (SessionName × PersistedSession)}

/-- Every connection that is not closed holds a session and has told its client
what it should. -/
def Telling (s : NoticeRun) : Prop :=
  ∀ c k, s.conns[c]? = some k → k.stage = .closed ∨ ∃ id, s.owners.held c = some id ∧ k.Told s.channels id

/-- A broadcast reaches a subscriber when it reads on. -/
theorem told_send {k : Conn} {id : SessionId} (h : k.Told s.channels id) (i : ℕ) (f : Firing) :
    k.Told (s.send i f).channels id := by
  have hreads : ∀ {channel : ℕ} {rx : Subscription}, rx.Reads (own id) (s.channels channel) k.heard →
      rx.Reads (own id) ((s.send i f).channels channel) k.heard := by
    intro channel rx hr
    by_cases hc : channel = f.channel
    · rw [hc, show (s.send i f).channels f.channel = s.channels f.channel ++ [f.event] from Function.update_self ..]
      exact (hc ▸ hr).send _
    · rw [show (s.send i f).channels channel = s.channels channel from Function.update_of_ne hc ..]
      exact hr
  unfold Conn.Told at h ⊢
  split at h
  · exact h
  · exact h
  · exact ⟨hreads h.1, h.2⟩
  · exact ⟨hreads h.1, h.2⟩
  · trivial

theorem telling_step (h : s.Telling) (hm : s.Moves retained s') : s'.Telling := by
  intro c k hk
  have hkept : ∀ {s₁ : NoticeRun}, s.conns[c]? = some k → s₁.owners.held c = s.owners.held c →
      s₁.channels = s.channels → k.stage = .closed ∨ ∃ id, s₁.owners.held c = some id ∧ k.Told s₁.channels id := by
    intro s₁ hk hheld hchannels
    rw [hheld, hchannels]
    exact h c k hk
  cases hm with
  | opened ha hby _ hid =>
    by_cases hlt : c < s.conns.length
    · rw [List.getElem?_append_left hlt] at hk
      refine hkept hk (OwnerRun.held_act ha fun hc => ?_) rfl
      rw [hby] at hc
      exact (Nat.ne_of_lt hlt) (Option.some.inj hc).symm
    · rw [List.getElem?_append_right (Nat.le_of_not_lt hlt), List.getElem?_singleton] at hk
      split at hk
      · rename_i hc
        obtain rfl := Option.some.inj hk
        have hlen : c = s.conns.length := by omega
        rw [hlen]
        exact .inr ⟨_, hid, rfl, rfl⟩
      · cases hk
  | @conn c₀ k₀ k' id owners hk₀ hid hmove =>
    by_cases hc : c = c₀
    · subst hc
      rw [getElem?_set_self' hk₀] at hk
      obtain rfl := Option.some.inj hk
      rcases h c k₀ hk₀ with hclosed | ⟨id', hid', ht⟩
      · exact .inl (hmove.closed hclosed)
      · obtain rfl : id' = id := Option.some.inj (hid'.symm.trans hid)
        exact hmove.told hid ht
    · exact hkept (by rwa [List.getElem?_set_ne (Ne.symm hc)] at hk) (hmove.steps.held hc) rfl
  | disposed ha => exact hkept hk (OwnerRun.held_act ha (by simp [OwnerAct.by?])) rfl
  | domains => exact hkept hk rfl rfl
  | fired => exact hkept hk rfl rfl
  | queued => exact hkept hk rfl rfl
  | @sent i f => exact (h c k hk).imp_right fun ht => ht.imp fun id hi => ⟨hi.1, told_send hi.2 i f⟩

end NoticeRun

/-! ### How often a connection writes a notification -/

/-- What a connection's subscription has yet to read. -/
def Conn.unread (channels : ℕ → List PipelineEvent) (k : Conn) : List PipelineEvent :=
  match k.stage with
  | .live _ channel rx | .answering _ channel rx => rx.pending (channels channel)
  | _ => []

/-- Beside what it drained, a connection has written, or will, no more than
what was broadcast since `base`. -/
structure Conn.Counted (e : PipelineEvent) (base : ℕ) (s : NoticeRun) (k : Conn) : Prop where
  base_le : base ≤ s.sentCount e
  written : k.written.count e + (k.unread s.channels).count e + base ≤ k.drained.count e + s.sentCount e

namespace Conn

variable {retained : ℕ} {s : NoticeRun} {c base : ℕ} {id : SessionId} {k k' : Conn} {owners : OwnerRun} {e : PipelineEvent}

theorem unread_subscribed (domain : DomainId) (channel : ℕ) : (k.subscribed s domain channel).unread s.channels = [] :=
  Subscription.pending_subscribe _

/-- It writes what it drained, then what it had yet to read. -/
theorem Moves.counted (hm : k.Moves retained s c id owners k') (ht : k.Told s.channels id) (h : k.Counted e base s) :
    k'.Counted e base s := by
  obtain ⟨hbase, hw⟩ := h
  refine ⟨hbase, ?_⟩
  unfold Told at ht
  have hunread : ∀ {channel : ℕ} {domain : DomainId} {rx : Subscription}, k.stage = .live domain channel rx ∨
      k.stage = .answering domain channel rx → k.unread s.channels = rx.pending (s.channels channel) := by
    intro channel domain rx hst
    unfold unread
    rcases hst with hst | hst <;> rw [hst]
  cases hm with
  | bound => exact hw
  | started hst =>
    rw [hst] at ht
    show k.written.count e + 0 + base ≤ _
    rw [ht.1, List.count_nil]
    omega
  | @wrote e' left hst =>
    rw [hst] at ht
    show (k.written ++ [e']).count e + 0 + base ≤ k.drained.count e + _
    rw [← ht, List.count_append, List.count_append, List.count_cons, List.count_cons, List.count_nil]
    omega
  | subscribed hst domain channel =>
    rw [unread_subscribed]
    show k.written.count e + 0 + base ≤ _
    exact le_trans (by omega) hw
  | @heard domain channel rx rx' e' hst hr =>
    have hcount := Subscription.count_value hr e
    rw [hunread (.inl hst), hcount] at hw
    show (k.written ++ [e']).count e + (rx'.pending (s.channels channel)).count e + base ≤ _
    rw [List.count_append, List.count_singleton]
    simp only [beq_iff_eq]
    refine le_trans (le_of_eq ?_) hw
    omega
  | @skipped domain channel rx rx' e' hst hr =>
    have hcount := Subscription.count_value hr e
    rw [hunread (.inl hst)] at hw
    show k.written.count e + (rx'.pending (s.channels channel)).count e + base ≤ _
    exact le_trans (by omega) hw
  | @lagged domain channel n rx rx' hst hr =>
    have hcount := Subscription.count_lagged hr e
    rw [hunread (.inl hst)] at hw
    show k.written.count e + (rx'.pending (s.channels channel)).count e + base ≤ _
    exact le_trans (by omega) hw
  | renamed hst =>
    rw [hunread (.inl hst)] at hw
    exact hw
  | handled hst =>
    rw [hunread (.inl hst)] at hw
    exact hw
  | answered hst =>
    rw [hunread (.inr hst)] at hw
    exact hw
  | moved hst domain channel =>
    rw [unread_subscribed]
    show k.written.count e + 0 + base ≤ _
    exact le_trans (by omega) hw
  | failed =>
    show k.written.count e + 0 + base ≤ _
    exact le_trans (by omega) hw

/-- A broadcast gives a subscriber one more to read. -/
theorem Counted.send (h : k.Counted e base s) (ht : k.stage = .closed ∨ ∃ id, k.Told s.channels id) {i : ℕ} {f : Firing}
    (hi : s.firings[i]? = some f) (hst : f.stage = .queued) : k.Counted e base (s.send i f) := by
  have hset := countP_set_add (p := Firing.sends e) (y := { f with stage := .sent }) hi
  have hold : f.sends e = false := by simp [Firing.sends, hst]
  have hnew : Firing.sends e { f with stage := .sent } = decide (f.event = e) := by simp [Firing.sends]
  rw [hold, hnew] at hset
  have hsent : (s.send i f).sentCount e = s.sentCount e + (decide (f.event = e)).toNat := hset
  have hunread : (k.unread (s.send i f).channels).count e ≤ (k.unread s.channels).count e + (decide (f.event = e)).toNat := by
    have hpending : ∀ {channel : ℕ} {rx : Subscription}, rx.pos ≤ (s.channels channel).length →
        (rx.pending ((s.send i f).channels channel)).count e ≤
          (rx.pending (s.channels channel)).count e + (decide (f.event = e)).toNat := by
      intro channel rx hpos
      by_cases hc : channel = f.channel
      · rw [hc] at hpos ⊢
        rw [show (s.send i f).channels f.channel = s.channels f.channel ++ [f.event] from Function.update_self ..,
          Subscription.pending_append hpos, List.count_append, List.count_singleton]
        by_cases he : f.event = e <;> simp [he]
      · rw [show (s.send i f).channels channel = s.channels channel from Function.update_of_ne hc ..]
        exact Nat.le_add_right _ _
    have hplaced : ∀ {channel : ℕ} {domain : DomainId} {rx : Subscription}, k.stage = .live domain channel rx ∨
        k.stage = .answering domain channel rx → rx.pos ≤ (s.channels channel).length := by
      intro channel domain rx hst
      rcases ht with hclosed | ⟨id, ht⟩
      · rcases hst with hst | hst <;> rw [hclosed] at hst <;> cases hst
      · unfold Told at ht
        rcases hst with hst | hst <;> rw [hst] at ht <;> exact ht.1.sent
    unfold unread
    split
    · rename_i hlive
      exact hpending (hplaced (.inl hlive))
    · rename_i hanswering
      exact hpending (hplaced (.inr hanswering))
    · exact Nat.zero_le _
  refine ⟨?_, ?_⟩
  · rw [hsent]
    exact Nat.le_add_right_of_le h.base_le
  · have hw := h.written
    rw [hsent]
    omega

end Conn

namespace NoticeRun

variable {retained : ℕ} {s s' : NoticeRun} {c base : ℕ} {k : Conn} {e : PipelineEvent}

/-- Over one step of anything. -/
theorem counted_step (hs : s.Telling) (hm : s.Moves retained s') (hk : s.conns[c]? = some k)
    (h : k.Counted e base s) : ∃ k', s'.conns[c]? = some k' ∧ k'.Counted e base s' := by
  cases hm with
  | opened =>
    have hlt := (List.getElem?_eq_some_iff.mp hk).1
    exact ⟨k, by rw [List.getElem?_append_left hlt]; exact hk, h.base_le, h.written⟩
  | @conn c₀ k₀ k' id owners hk₀ hid hmove =>
    by_cases hc : c = c₀
    · subst hc
      obtain rfl : k₀ = k := Option.some.inj (hk₀.symm.trans hk)
      refine ⟨k', getElem?_set_self' hk, ?_⟩
      have ht : k₀.Told s.channels id := by
        rcases hs c k₀ hk with hclosed | ⟨id', hid', ht⟩
        · unfold Conn.Told
          rw [hclosed]
          trivial
        · exact Option.some.inj (hid'.symm.trans hid) ▸ ht
      have hnext := hmove.counted ht h
      exact ⟨hnext.base_le, hnext.written⟩
    · exact ⟨k, by rw [List.getElem?_set_ne (Ne.symm hc)]; exact hk, h.base_le, h.written⟩
  | disposed => exact ⟨k, hk, h.base_le, h.written⟩
  | domains => exact ⟨k, hk, h.base_le, h.written⟩
  | fired f hf =>
    have hsame : sentCount e { s with firings := s.firings ++ [f] } = sentCount e s := by
      simp [sentCount, Firing.sends, hf]
    refine ⟨k, hk, ?_, ?_⟩
    · rw [hsame]
      exact h.base_le
    · rw [hsame]
      exact h.written
  | @queued i f hi hst =>
    have hset := countP_set_add (p := Firing.sends e) (y := { f with stage := .queued }) hi
    have hsends : Firing.sends e { f with stage := .queued } = f.sends e := by simp [Firing.sends, hst]
    rw [hsends] at hset
    have hsame : (s.queue i f).sentCount e = s.sentCount e := Nat.add_right_cancel hset
    refine ⟨k, hk, ?_, ?_⟩
    · rw [hsame]
      exact h.base_le
    · rw [hsame]
      exact h.written
  | sent hi hst => exact ⟨k, hk, h.send ((hs c k hk).imp_right fun ht => ht.imp fun _ => And.right) hi hst⟩

end NoticeRun

/-! ### Away -/

/-- A named session carries its name, and an anonymous one is connected. -/
def Labelled (r : SessionRegistry) : Prop :=
  ∀ id st, r.get? id = some st → match id with
    | .named _ => st.name.isSome = true
    | .anonymous _ => st.connected = true

namespace Labelled

variable {r r' : SessionRegistry} {now : ℕ}

theorem insert (h : Labelled r) {id : SessionId} {st : SessionState}
    (hst : match id with | .named _ => st.name.isSome = true | .anonymous _ => st.connected = true) :
    Labelled (r.insert id st) := by
  intro id' st' hget
  rw [SessionRegistry.get?_insert] at hget
  split at hget
  · rename_i hid
    obtain rfl := Option.some.inj hget
    rw [hid]
    exact hst
  · exact h id' st' hget

theorem erase (h : Labelled r) (id : SessionId) : Labelled (r.erase id) := by
  intro id' st' hget
  rw [SessionRegistry.get?_erase] at hget
  split at hget
  · cases hget
  · exact h id' st' hget

theorem modify (h : Labelled r) {id : SessionId} {f : SessionState → SessionState}
    (hname : ∀ st, r.get? id = some st → (f st).name = st.name)
    (hconn : ∀ st, (∃ uuid, id = .anonymous uuid) → r.get? id = some st → (f st).connected = st.connected) :
    Labelled (r.modify id f) := by
  intro id' st' hget
  rw [SessionRegistry.get?_modify] at hget
  split at hget
  · rename_i hid
    obtain ⟨st, hst, rfl⟩ := Option.map_eq_some_iff.mp hget
    have hold := h id' st hst
    rw [hid] at hold hst ⊢
    cases id with
    | named name =>
      simp only [hname st hst] at hold ⊢
      exact hold
    | anonymous uuid =>
      simp only [hconn st ⟨uuid, rfl⟩ hst] at hold ⊢
      exact hold
  · exact h id' st' hget

theorem effect {parseFilter : String → Except String ParsedFilter} {op : SessionOp} (h : Labelled r)
    (he : op.Effect parseFilter now r r') : Labelled r' := by
  have hno : ∀ {name : SessionName} {P : Prop}, (∃ uuid, SessionId.named name = .anonymous uuid) → P := fun hu =>
    absurd hu (by simp)
  cases he with
  | createAnonymous uuid => exact h.insert rfl
  | createNamed name => exact h.insert rfl
  | claimNew name => exact h.insert rfl
  | claimOld => exact h.modify (fun _ _ => rfl) fun _ hu _ => hno hu
  | reconnect => exact h.modify (fun _ _ => rfl) fun _ hu _ => hno hu
  | disconnectAnonymous uuid => exact h.erase _
  | disconnectNamed name => exact h.modify (fun _ _ => rfl) fun _ hu _ => hno hu
  | renameSame name => exact h
  | rename => exact ((h.erase _).erase _).insert rfl
  | notDisposed => exact h
  | disposed => exact h.erase _
  | dropSession => exact h.erase _
  | setDomain id domain =>
    exact h.modify (fun st _ => by unfold SessionRegistry.rebind; split <;> rfl)
      fun st _ _ => NoticeRun.rebind_connected domain st
  | setClientInfo => exact h.modify (fun _ _ => rfl) fun _ _ _ => rfl
  | drainNotifications => exact h.modify (fun _ _ => rfl) fun _ _ _ => rfl
  | @own id req f st st' hf hst hfst =>
    have hkeeps := SessionRegistry.own_keeps hf hfst
    refine h.modify (fun st₁ hst₁ => ?_) fun st₁ _ hst₁ => ?_
    · obtain rfl := Option.some.inj (hst.symm.trans hst₁)
      rw [hkeeps]
    · obtain rfl := Option.some.inj (hst.symm.trans hst₁)
      rw [hkeeps]

end Labelled

/-- The session stands, and nobody is connected to it. -/
def Away (id : SessionId) (r : SessionRegistry) : Prop := ∃ st, r.get? id = some st ∧ st.connected = false

/-- What was offered to one session. -/
def offersTo (id : SessionId) (l : List (SessionId × PipelineEvent)) : List PipelineEvent :=
  (l.filter fun x => x.1 = id).map Prod.snd

theorem offersTo_append (id : SessionId) (l l' : List (SessionId × PipelineEvent)) :
    offersTo id (l ++ l') = offersTo id l ++ offersTo id l' := by
  simp [offersTo]

/-- The session's queue has taken what was offered it as far as there was room. -/
def Took (id : SessionId) (new : List (SessionId × PipelineEvent)) (st st' : SessionState) : Prop :=
  st'.maxQueueSize = st.maxQueueSize ∧
    st'.notificationQueue =
      st.notificationQueue ++ (offersTo id new).take (st.maxQueueSize - st.notificationQueue.length)

theorem Took.refl (id : SessionId) (st : SessionState) : Took id [] st st := by
  refine ⟨rfl, ?_⟩
  simp [offersTo]

/-- Room taken by the first offers is not there for the next. -/
theorem Took.trans {id : SessionId} {new new' : List (SessionId × PipelineEvent)} {st st' st'' : SessionState}
    (h : Took id new st st') (h' : Took id new' st' st'') : Took id (new ++ new') st st'' := by
  obtain ⟨hmax, hqueue⟩ := h
  obtain ⟨hmax', hqueue'⟩ := h'
  refine ⟨hmax'.trans hmax, ?_⟩
  have hroom : st'.maxQueueSize - st'.notificationQueue.length =
      st.maxQueueSize - st.notificationQueue.length - (offersTo id new).length := by
    rw [hmax, hqueue, List.length_append, List.length_take]
    omega
  rw [hqueue', hroom, hqueue, offersTo_append, List.take_append, List.append_assoc]

/-- A session's own queue stays as it is while others claim, rename and leave
theirs, and it stays away. -/
theorem took_effect {parseFilter : String → Except String ParsedFilter} {op : SessionOp} {r r' : SessionRegistry}
    {now : ℕ} {id : SessionId} {st st' : SessionState} (he : op.Effect parseFilter now r r')
    (hdomain : ∀ id domain, op ≠ .setDomain id domain) (hdrain : ∀ id, op ≠ .drainNotifications id)
    (hold : ∀ old name, op = .rename old name → ∀ st, r.get? old = some st → st.connected = true)
    (hst : r.get? id = some st) (haway : st.connected = false) (hst' : r'.get? id = some st')
    (haway' : st'.connected = false) : Took id [] st st' := by
  have hsame : ∀ {st₁ : SessionState}, r.get? id = some st₁ → st₁ = st := fun h => Option.some.inj (h.symm.trans hst)
  have hconn : ∀ {P : Prop}, st'.connected = true → P := fun h => by
    rw [haway'] at h
    cases h
  have hinsert : ∀ {id₁ : SessionId} {st₁ : SessionState}, st₁.connected = true →
      (r.insert id₁ st₁).get? id = some st' → Took id [] st st' := by
    intro id₁ st₁ hc h
    rw [SessionRegistry.get?_insert] at h
    split at h
    · obtain rfl := Option.some.inj h
      exact hconn hc
    · rw [hst] at h
      exact Option.some.inj h ▸ .refl id st
  have herase : ∀ {id₁ : SessionId}, (r.erase id₁).get? id = some st' → Took id [] st st' := by
    intro id₁ h
    rw [SessionRegistry.get?_erase] at h
    split at h
    · cases h
    · rw [hst] at h
      exact Option.some.inj h ▸ .refl id st
  have hmodify : ∀ {id₁ : SessionId} {f : SessionState → SessionState},
      ((f st).connected = false → (f st).notificationQueue = st.notificationQueue ∧ (f st).maxQueueSize = st.maxQueueSize) →
      (r.modify id₁ f).get? id = some st' → Took id [] st st' := by
    intro id₁ f hf h
    rw [SessionRegistry.get?_modify, hst] at h
    split at h
    · obtain rfl := Option.some.inj h
      obtain ⟨hqueue, hmax⟩ := hf haway'
      refine ⟨hmax, ?_⟩
      rw [hqueue]
      simp [offersTo]
    · exact Option.some.inj h ▸ .refl id st
  cases he with
  | createAnonymous uuid => exact hinsert rfl hst'
  | createNamed name => exact hinsert rfl hst'
  | claimNew name => exact hinsert rfl hst'
  | claimOld => exact hmodify (fun h => by cases h) hst'
  | reconnect => exact hmodify (fun h => by cases h) hst'
  | disconnectAnonymous uuid => exact herase hst'
  | disconnectNamed name => exact hmodify (fun _ => ⟨rfl, rfl⟩) hst'
  | renameSame name => exact hsame hst' ▸ .refl id st
  | @rename old name st₁ hne hst₁ =>
    rw [SessionRegistry.get?_insert, SessionRegistry.get?_erase, SessionRegistry.get?_erase] at hst'
    split at hst'
    · obtain rfl := Option.some.inj hst'
      exact hconn (hold old name.text rfl st₁ hst₁)
    · split at hst'
      · cases hst'
      · exact hsame hst' ▸ .refl id st
  | notDisposed => exact hsame hst' ▸ .refl id st
  | disposed => exact herase hst'
  | dropSession => exact herase hst'
  | setDomain id₁ domain => exact absurd rfl (hdomain id₁ domain)
  | setClientInfo => exact hmodify (fun _ => ⟨rfl, rfl⟩) hst'
  | drainNotifications id₁ => exact absurd rfl (hdrain id₁)
  | @own id₁ req f st₁ st₂ hf hst₁ hfst =>
    rw [SessionRegistry.get?_modify, hst] at hst'
    split at hst'
    · rename_i hid
      obtain rfl := Option.some.inj hst'
      obtain rfl := hsame (hid ▸ hst₁)
      refine ⟨?_, ?_⟩
      · rw [SessionRegistry.own_keeps hf hfst]
      · rw [SessionRegistry.own_keeps hf hfst]
        simp [offersTo]
    · exact Option.some.inj hst' ▸ .refl id st

namespace NoticeRun

variable {retained : ℕ} {s s' : NoticeRun} {id : SessionId} {st st' : SessionState}

theorem took_act {o o' : OwnerRun} {now : ℕ} {a : OwnerAct} {err : Option SessionError} (hi : o.Inv)
    (ha : o.act now a = some (o', err)) (hclaim : ∀ c id, a ≠ .reconnectClaim c id) (hst : o.sessions.get? id = some st)
    (haway : st.connected = false) (hst' : o'.sessions.get? id = some st') (haway' : st'.connected = false) :
    Took id [] st st' := by
  rcases OwnerRun.applies_of_act (fun _ => .error "") ha hclaim with hsame | ⟨op, hop, hdomain, hdrain, hrename⟩
  · rw [hsame, hst] at hst'
    exact Option.some.inj hst' ▸ .refl id st
  · refine took_effect (SessionRegistry.effect_of_apply hop) hdomain hdrain (fun old name hold st₁ hst₁ => ?_) hst haway
      hst' haway'
    obtain ⟨c, hc⟩ := hrename old name hold
    obtain ⟨st₂, hst₂, hconn⟩ := hi.owned c old hc
    exact Option.some.inj (hst₂.symm.trans hst₁) ▸ hconn

theorem labelled_step (h : Labelled s.owners.sessions) (hm : s.Moves retained s') : Labelled s'.owners.sessions := by
  have hact : ∀ {o' : OwnerRun} {now : ℕ} {a : OwnerAct} {err : Option SessionError},
      s.owners.act now a = some (o', err) → (∀ c id, a ≠ .reconnectClaim c id) → Labelled o'.sessions := by
    intro o' now a err ha hclaim
    rcases OwnerRun.applies_of_act (fun _ => .error "") ha hclaim with hsame | ⟨op, hop, -⟩
    · rw [hsame]
      exact h
    · exact h.effect (SessionRegistry.effect_of_apply hop)
  cases hm with
  | opened ha _ hclaim => exact hact ha hclaim
  | conn _ _ hmove =>
    cases hmove.steps with
    | same => exact h
    | bound domain =>
      exact h.modify (fun st _ => by unfold SessionRegistry.rebind; split <;> rfl) fun st _ _ => rebind_connected domain st
    | drained => exact h.modify (fun _ _ => rfl) fun _ _ _ => rfl
    | acted ha _ hclaim => exact hact ha hclaim
  | disposed ha => exact hact ha (by simp)
  | domains => exact h
  | fired => exact h
  | queued =>
    refine h.modify (fun st _ => ?_) fun st _ _ => ?_
    · split <;> rfl
    · split <;> rfl
  | sent => exact h

/-- Over one step a session that stays away is offered what it is offered. -/
theorem took_step (hi : s.owners.Inv) (hl : Labelled s.owners.sessions) (hm : s.Moves retained s')
    (hst : s.owners.sessions.get? id = some st) (haway : st.connected = false)
    (hst' : s'.owners.sessions.get? id = some st') (haway' : st'.connected = false) :
    ∃ new, s'.offered = s.offered ++ new ∧ Took id new st st' := by
  have hsame : ∀ {st₁ : SessionState}, s.owners.sessions.get? id = some st₁ → st₁ = st := fun h =>
    Option.some.inj (h.symm.trans hst)
  cases hm with
  | opened ha _ hclaim => exact ⟨[], (List.append_nil _).symm, took_act hi ha hclaim hst haway hst' haway'⟩
  | @conn c k k' id' owners hk hid hmove =>
    refine ⟨[], (List.append_nil _).symm, ?_⟩
    -- the connection's own session is connected, so it is another
    have hne : id ≠ id' := by
      intro he
      obtain ⟨st₁, hst₁, hconn⟩ := hi.owned c id' hid
      rw [← he] at hst₁
      rw [hsame hst₁, haway] at hconn
      cases hconn
    have hother : ∀ {f : SessionState → SessionState}, (s.owners.sessions.modify id' f).get? id = some st' → st' = st :=
      fun h => by
        rw [SessionRegistry.get?_modify, if_neg hne] at h
        exact hsame h
    cases hmove.steps with
    | same => exact hsame hst' ▸ .refl id st
    | bound domain => exact hother hst' ▸ .refl id st
    | drained => exact hother hst' ▸ .refl id st
    | acted ha _ hclaim => exact took_act hi ha hclaim hst haway hst' haway'
  | disposed ha => exact ⟨[], (List.append_nil _).symm, took_act hi ha (by simp) hst haway hst' haway'⟩
  | domains => exact ⟨[], (List.append_nil _).symm, hsame hst' ▸ .refl id st⟩
  | fired => exact ⟨[], (List.append_nil _).symm, hsame hst' ▸ .refl id st⟩
  | @queued i f hf hstage =>
    refine ⟨[(f.sid, f.event)], rfl, ?_⟩
    have hget : (s.owners.sessions.sendOrQueueNotification f.sid f.event).get? id = some st' := hst'
    unfold SessionRegistry.sendOrQueueNotification at hget
    rw [SessionRegistry.get?_modify, hst] at hget
    have hname : st.name.isSome = true := by
      have hlabel := hl id st hst
      cases id with
      | named name => exact hlabel
      | anonymous uuid =>
        simp only [haway] at hlabel
        cases hlabel
    split at hget
    · rename_i hid
      have hoffers : offersTo id [(f.sid, f.event)] = [f.event] := by simp [offersTo, hid]
      obtain rfl := Option.some.inj hget
      simp only [haway, hname, Bool.not_false, Bool.true_and, decide_eq_true_eq]
      unfold Took
      rw [hoffers]
      split
      · rename_i hroom
        refine ⟨rfl, ?_⟩
        rw [List.take_of_length_le (by simp only [List.length_singleton]; omega)]
      · rename_i hfull
        refine ⟨rfl, ?_⟩
        rw [Nat.sub_eq_zero_of_le (Nat.le_of_not_lt hfull), List.take_zero, List.append_nil]
    · rename_i hid
      have hoffers : offersTo id [(f.sid, f.event)] = [] := by simp [offersTo, Ne.symm hid]
      refine ⟨congrArg SessionState.maxQueueSize (Option.some.inj hget).symm, ?_⟩
      rw [hoffers, ← Option.some.inj hget, List.take_nil, List.append_nil]
  | sent => exact ⟨[], (List.append_nil _).symm, hsame hst' ▸ .refl id st⟩

/-- In every state of the run the session is away. -/
def StaysAway (retained : ℕ) (id : SessionId) : NoticeRun → List NoticeAct → Prop
  | s, [] => Away id s.owners.sessions
  | s, a :: acts => Away id s.owners.sessions ∧ ∀ s₁, s.step retained a = some s₁ → StaysAway retained id s₁ acts

theorem StaysAway.now {acts : List NoticeAct} (h : StaysAway retained id s acts) : Away id s.owners.sessions := by
  cases acts with
  | nil => exact h
  | cons a acts => exact h.1

/-! ### Every reachable state -/

section Results

variable {env : ParseEnv} {now : ℕ} {saved : List (SessionName × PersistedSession)}

theorem telling_of_reach (h : Reach (step retained) (fun _ _ => True) (boot env now saved) s) : s.Telling :=
  h.invariant (fun c k hk => by cases hk) fun _ _ _ ht _ hs => telling_step ht (moves_of_step hs)

theorem labelled_boot : Labelled (boot env now saved).owners.sessions := by
  intro id st hst
  obtain ⟨⟨-, name, rfl⟩, -, hname⟩ := restoreAll_quiet env now saved id st hst
  exact hname

theorem labelled_of_reach (h : Reach (step retained) (fun _ _ => True) (boot env now saved) s) :
    Labelled s.owners.sessions :=
  h.invariant (I := fun s : NoticeRun => Labelled s.owners.sessions) labelled_boot
    fun _ _ _ hl _ hs => labelled_step hl (moves_of_step hs)

end Results

end NoticeRun

open NoticeRun

section Results

variable {retained : ℕ} {env : ParseEnv} {now : ℕ} {saved : List (SessionName × PersistedSession)} {s s' : NoticeRun}

/-- **A notification is queued and drained once.** Of the copies that firings
have offered to a queue, each is in one queue at most, or one connection has
drained it. -/
theorem queued_once (h : Reach (step retained) (fun _ _ => True) (boot env now saved) s) (e : PipelineEvent) :
    queuedCount e s.owners.sessions + drainedCount e s ≤ offeredCount e s := by
  refine h.invariant (I := fun s : NoticeRun => queuedCount e s.owners.sessions + drainedCount e s ≤ offeredCount e s)
    ?_ fun _ _ _ hq _ hs => queuedOnce_step hq (moves_of_step hs)
  have hnone : queuedCount e (boot env now saved).owners.sessions = 0 := by
    refine List.sum_eq_zero fun n hn => ?_
    obtain ⟨q, hq, rfl⟩ := List.mem_map.mp hn
    rw [(restoreAll_quiet env now saved q.1 q.2 (FMap.mem_iff.mp hq)).2.1]
    rfl
  rw [hnone]
  exact Nat.zero_le _

/-- **What a subscriber writes.** A connection that is live has written all it
drained from the queue, before anything else; of its channel it has written a
subsequence of what was broadcast for its session since it subscribed or was
renamed; and while it was not overrun, that and what it has yet to read is all
of it, in order. -/
theorem live_exact (h : Reach (step retained) (fun _ _ => True) (boot env now saved) s) {c channel : ℕ} {k : Conn}
    {domain : DomainId} {rx : Subscription} (hk : s.conns[c]? = some k) (hst : k.stage = .live domain channel rx) :
    ∃ id, s.owners.held c = some id ∧ (∃ earlier, k.written = k.drained ++ earlier ++ k.heard) ∧
      k.heard.Sublist (((s.channels channel).drop rx.start).filter (own id)) ∧
      (rx.overrun = false → k.heard ++ (rx.pending (s.channels channel)).filter (own id) =
        ((s.channels channel).drop rx.start).filter (own id)) := by
  rcases telling_of_reach h c k hk with hclosed | ⟨id, hid, ht⟩
  · rw [hst] at hclosed
    cases hclosed
  · unfold Conn.Told at ht
    rw [hst] at ht
    obtain ⟨hreads, hw⟩ := ht
    have hall := Subscription.window_append_pending hreads.begun hreads.sent
    refine ⟨id, hid, hw, ?_, fun ho => ?_⟩
    · rw [← hall, List.filter_append]
      exact hreads.part.trans (List.sublist_append_left _ _)
    · rw [← hall, List.filter_append, hreads.whole ho]

/-- **What comes before a subscription comes by the queue.** From a state in
which a connection has not subscribed yet, it never writes a notification more
often than it drained it and firings after that state broadcast it. -/
theorem heard_once (h : Reach (step retained) (fun _ _ => True) (boot env now saved) s) {c : ℕ} {k k' : Conn}
    (hk : s.conns[c]? = some k) (hst : k.stage = .opening ∨ ∃ left, k.stage = .draining left)
    {acts : List NoticeAct} (hrun : runActs (step retained) s acts = some s') (hk' : s'.conns[c]? = some k')
    (e : PipelineEvent) : k'.written.count e + sentCount e s ≤ k'.drained.count e + sentCount e s' := by
  have hstart : k.Counted e (sentCount e s) s := by
    refine ⟨le_rfl, ?_⟩
    rcases telling_of_reach h c k hk with hclosed | ⟨id, hid, ht⟩
    · rcases hst with hst | ⟨left, hst⟩ <;> rw [hclosed] at hst <;> cases hst
    · unfold Conn.Told at ht
      unfold Conn.unread
      rcases hst with hst | ⟨left, hst⟩ <;> rw [hst] at ht ⊢ <;> dsimp only at ht ⊢
      · rw [ht.1, ht.2]
        simp
      · rw [← ht, List.count_append, List.count_nil]
        omega
  suffices hcounted : ∃ k', s'.conns[c]? = some k' ∧ k'.Counted e (sentCount e s) s' by
    obtain ⟨k₂, hk₂, hc⟩ := hcounted
    obtain rfl := Option.some.inj (hk₂.symm.trans hk')
    exact le_trans (by omega) hc.written
  clear hst hk'
  generalize sentCount e s = base at hstart
  induction acts generalizing s k with
  | nil =>
    obtain rfl := Option.some.inj hrun
    exact ⟨k, hk, hstart⟩
  | cons a acts ih =>
    unfold runActs at hrun
    split at hrun
    · cases hrun
    · rename_i s₁ hs
      obtain ⟨k₁, hk₁, hc⟩ := counted_step (telling_of_reach h) (moves_of_step hs) hk hstart
      exact ih (.next h trivial hs) hk₁ hrun hc

/-- **What a session finds when it comes back.** Over a run in which it stays
away its queue takes what firings offered it, in order, until it is full. -/
theorem away_queue (h : Reach (step retained) (fun _ _ => True) (boot env now saved) s) {id : SessionId}
    {acts : List NoticeAct} (haway : StaysAway retained id s acts) (hrun : runActs (step retained) s acts = some s') :
    ∃ st st' new, s.owners.sessions.get? id = some st ∧ s'.owners.sessions.get? id = some st' ∧
      s'.offered = s.offered ++ new ∧ st'.notificationQueue =
        st.notificationQueue ++ (offersTo id new).take (st.maxQueueSize - st.notificationQueue.length) := by
  suffices htook : ∃ st st' new, s.owners.sessions.get? id = some st ∧ s'.owners.sessions.get? id = some st' ∧
      s'.offered = s.offered ++ new ∧ Took id new st st' by
    obtain ⟨st, st', new, hst, hst', hnew, ht⟩ := htook
    exact ⟨st, st', new, hst, hst', hnew, ht.2⟩
  induction acts generalizing s with
  | nil =>
    obtain rfl := Option.some.inj hrun
    obtain ⟨st, hst, -⟩ := haway
    exact ⟨st, st, [], hst, hst, (List.append_nil _).symm, .refl id st⟩
  | cons a acts ih =>
    unfold runActs at hrun
    split at hrun
    · cases hrun
    · rename_i s₁ hs
      obtain ⟨⟨st, hst, hdis⟩, hrest⟩ := haway
      obtain ⟨st₁, hst₁, hdis₁⟩ := (hrest s₁ hs).now
      obtain ⟨new, hnew, ht⟩ := took_step (inv_of_reach h) (labelled_of_reach h) (moves_of_step hs) hst hdis hst₁ hdis₁
      obtain ⟨st₂, st', new', hst₂, hst', hnew', ht'⟩ := ih (.next h trivial hs) (hrest s₁ hs) hrun
      obtain rfl := Option.some.inj (hst₂.symm.trans hst₁)
      refine ⟨st, st', new ++ new', hst, hst', ?_, ht.trans ht'⟩
      rw [hnew', hnew, List.append_assoc]

end Results

/-! ### A run -/

namespace NoticeRun

def noted (description : String) : PipelineEvent where
  sessionId := "lane"
  triggerId := 1
  triggerDescription := some description
  filterString := errorFilter
  matchedEntry := .blank 1
  contextBefore := []
  preTriggerFlushed := 0
  preWindow := 500
  postWindowSize := 200
  notifyContext := 5
  oneshot := false
  traceId := none

/-- A session's first connection hears of a firing as it happens. -/
def hears : List NoticeAct :=
  [.claim 0 "lane", .conn 0 .start, .conn 0 .subscribe, .fire (.named OwnerRun.lane) 0 (noted "first"), .queue 0, .send 0,
   .conn 0 .receive]

/-- It goes, and the next firing finds the session away. -/
def leaves : List NoticeAct :=
  hears ++ [.conn 0 (.fail 1), .fire (.named OwnerRun.lane) 0 (noted "second")]

/-- That one is broadcast when the session's second connection has subscribed. -/
def returns : List NoticeAct := [.conn 1 .start, .conn 1 .write, .conn 1 .subscribe, .send 1, .conn 1 .receive]

def quiet : NoticeRun := boot .ascii 0 []

def after (acts : List NoticeAct) : NoticeRun := (runActs (step 128) quiet acts).getD quiet

theorem runActs_after (acts : List NoticeAct) (h : (runActs (step 128) quiet acts).isSome = true) :
    runActs (step 128) quiet acts = some (after acts) := by
  obtain ⟨s, hs⟩ := Option.isSome_iff_exists.mp h
  unfold after
  rw [hs]
  rfl

theorem reach_after {acts : List NoticeAct} (h : (runActs (step 128) quiet acts).isSome = true) :
    Reach (step 128) (fun _ _ => True) quiet (after acts) :=
  reach_runActs acts .start (runActs_after acts h)

theorem runActs_returns : runActs (step 128) (after (leaves ++ [.queue 1, .claim 2 "lane"])) returns =
    some (after (leaves ++ [.queue 1, .claim 2 "lane"] ++ returns)) := by
  have hrun := runActs_after (leaves ++ [.queue 1, .claim 2 "lane"] ++ returns) (by decide +kernel)
  rw [runActs_append, runActs_after _ (by decide +kernel)] at hrun
  exact hrun

theorem runActs_leaves : runActs (step 128) (after leaves) [.queue 1] = some (after (leaves ++ [.queue 1])) := by
  have hrun := runActs_after (leaves ++ [.queue 1]) (by decide +kernel)
  rw [runActs_append, runActs_after _ (by decide +kernel)] at hrun
  exact hrun

theorem away_of {id : SessionId} {r : SessionRegistry} (h : (r.get? id).any (fun st => !st.connected) = true) :
    Away id r := by
  obtain ⟨st, hst, hconn⟩ := (Option.any_eq_true ..).mp h
  exact ⟨st, hst, by simpa using hconn⟩

theorem staysAway_leaves : StaysAway 128 (.named OwnerRun.lane) (after leaves) [.queue 1] := by
  refine ⟨away_of (by decide +kernel), fun s₁ hs => ?_⟩
  have hrun := runActs_leaves
  rw [runActs, hs] at hrun
  obtain rfl := Option.some.inj hrun
  exact away_of (by decide +kernel)

end NoticeRun

theorem queued_once_left : queuedCount (noted "second") (after (leaves ++ [.queue 1])).owners.sessions = 1 ∧
    queuedCount (noted "second") (after (leaves ++ [.queue 1])).owners.sessions +
      drainedCount (noted "second") (after (leaves ++ [.queue 1])) ≤
        offeredCount (noted "second") (after (leaves ++ [.queue 1])) :=
  ⟨by decide +kernel, queued_once (reach_after (by decide +kernel)) _⟩

theorem live_exact_heard : ∃ id, (after hears).owners.held 0 = some id ∧
    (∃ earlier, [noted "first"] = [] ++ earlier ++ [noted "first"]) ∧
    [noted "first"].Sublist ((((after hears).channels 0).drop 0).filter (own id)) ∧
    (false = false → [noted "first"] ++ (Subscription.pending ((after hears).channels 0) ⟨0, 1, false⟩).filter (own id) =
      (((after hears).channels 0).drop 0).filter (own id)) :=
  live_exact (k := ⟨.live .default 0 ⟨0, 1, false⟩, [], [noted "first"], [noted "first"]⟩)
    (reach_after (by decide +kernel)) (by decide +kernel) rfl

/-- The second notification arrives twice, once from the queue. -/
theorem heard_once_returned :
    [noted "second", noted "second"].count (noted "second") +
        sentCount (noted "second") (after (leaves ++ [.queue 1, .claim 2 "lane"])) ≤
      [noted "second"].count (noted "second") +
        sentCount (noted "second") (after (leaves ++ [.queue 1, .claim 2 "lane"] ++ returns)) :=
  heard_once (c := 1) (k := .opened) (reach_after (by decide +kernel)) (by decide +kernel) (.inl rfl) runActs_returns
    (show (after (leaves ++ [.queue 1, .claim 2 "lane"] ++ returns)).conns[1]? =
      some ⟨.live .default 0 ⟨1, 2, false⟩, [noted "second"], [noted "second", noted "second"], [noted "second"]⟩ by
        decide +kernel) _

theorem away_queue_left : ∃ st st' new, (after leaves).owners.sessions.get? (.named OwnerRun.lane) = some st ∧
    (after (leaves ++ [.queue 1])).owners.sessions.get? (.named OwnerRun.lane) = some st' ∧
    (after (leaves ++ [.queue 1])).offered = (after leaves).offered ++ new ∧ st'.notificationQueue =
      st.notificationQueue ++
        (offersTo (.named OwnerRun.lane) new).take (st.maxQueueSize - st.notificationQueue.length) :=
  away_queue (reach_after (by decide +kernel)) staysAway_leaves runActs_leaves

end Notices
end Logmon
