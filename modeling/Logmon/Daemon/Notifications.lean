/-
# Notifications on their way to a client

`daemon/session.rs`, `daemon/server.rs` and the two processors, where a trigger
that fired is told to its session. A processor first queues the notification,
which a session does only while it is away, and then broadcasts it on its
domain's channel. A connection takes over its session, answers, drains the
queue, writes what it drained and only then subscribes; from there it forwards
what the channel carries under its session's id, and follows the session to
another domain or another name. Whatever ends the connection leaves the session.

All of it interleaves: each lock held, each channel operation and each write is
one step. What a record makes fire is not said here, nor what a request does
beside moving a session.

Key definitions: `Firing`, `Conn`, `NoticeRun`, `Conn.run`, `NoticeRun.step`,
`Conn.Moves`.
Key theorems: `OwnerRun.applies_of_act`, `Conn.moves_of_run`.
-/
import Logmon.Daemon.Ownership
import Logmon.Daemon.Persistence
import Logmon.Lib.Broadcast

namespace Logmon

open Lib

namespace OwnerRun

/-- The sessions changed under the lock, by nobody's claim. -/
def put (s : OwnerRun) (sessions : SessionRegistry) : OwnerRun := { s with sessions }

variable {s s' : OwnerRun} {now : ℕ} {a : OwnerAct} {e : Option SessionError}

theorem held_grant {c c' : ℕ} {x : Except SessionError (SessionRegistry × SessionId)} (hc : c' ≠ c) :
    (s.grant c x).1.held c' = s.held c' := by
  unfold grant
  split
  · rfl
  · exact Function.update_of_ne hc ..

theorem held_settle {x : Except SessionError SessionRegistry} : (s.settle x).1.held = s.held := by
  unfold settle
  split <;> rfl

/-- What is granted is held. -/
theorem held_granted {c : ℕ} {x : Except SessionError (SessionRegistry × SessionId)} (h : s.grant c x = (s', none)) :
    ∃ id, s'.held c = some id := by
  unfold grant at h
  split at h
  · cases h
  · rename_i sessions id
    obtain ⟨rfl, -⟩ := Prod.mk.inj h
    exact ⟨id, Function.update_self ..⟩

/-- A connection's claim is its own to change. -/
theorem held_act (ha : s.act now a = some (s', e)) {c : ℕ} (hc : a.by? ≠ some c) : s'.held c = s.held c := by
  have hfst : ∀ {x : OwnerRun × Option SessionError}, some x = some (s', e) → s' = x.1 := fun hx =>
    congrArg Prod.fst (Option.some.inj hx).symm
  cases a with
  | createAnonymous c₀ uuid =>
    simp only [act] at ha
    split at ha
    · rw [hfst ha, held_grant fun h => hc (by rw [h]; rfl)]
    · cases ha
  | createNamed c₀ name =>
    simp only [act] at ha
    split at ha
    · rw [hfst ha, held_grant fun h => hc (by rw [h]; rfl)]
    · cases ha
  | claimNamed c₀ name =>
    simp only [act] at ha
    split at ha
    · rw [hfst ha, held_grant fun h => hc (by rw [h]; rfl)]
    · cases ha
  | reconnectCheck c₀ id =>
    simp only [act] at ha
    split at ha
    · split at ha <;> rw [hfst ha]
    · cases ha
  | reconnectClaim c₀ id =>
    simp only [act] at ha
    split at ha
    · rw [hfst ha, held_grant fun h => hc (by rw [h]; rfl)]
    · cases ha
  | rename c₀ name =>
    simp only [act] at ha
    split at ha
    · cases ha
    · split at ha
      · rw [hfst ha, held_grant fun h => hc (by rw [h]; rfl)]
      · cases ha
  | disconnect c₀ =>
    have hne : c ≠ c₀ := fun h => hc (by rw [h]; rfl)
    simp only [act] at ha
    split at ha
    · cases ha
    · split at ha <;> split at ha
      · rw [hfst ha]
        exact Function.update_of_ne hne ..
      · cases ha
      · rw [hfst ha]
        exact Function.update_of_ne hne ..
      · cases ha
  | dropSession name =>
    simp only [act] at ha
    split at ha
    · rw [hfst ha, held_settle]
    · cases ha
  | disposeIfExpired id ttl =>
    simp only [act] at ha
    split at ha
    · rw [hfst ha, held_settle]
    · cases ha

/-- A rename that is refused changes nothing. -/
theorem act_refused {c : ℕ} {name : String} {err : SessionError}
    (ha : s.act now (.rename c name) = some (s', some err)) : s' = s := by
  simp only [act] at ha
  split at ha
  · cases ha
  · split at ha
    · have hg := Option.some.inj ha
      unfold grant at hg
      split at hg
      · exact (Prod.mk.inj hg).1.symm
      · cases (Prod.mk.inj hg).2
    · cases ha

/-- **What an owner's step does to the sessions** is one operation on them, or
nothing. -/
theorem applies_of_act (parseFilter : String → Except String ParsedFilter) (ha : s.act now a = some (s', e))
    (hclaim : ∀ c id, a ≠ .reconnectClaim c id) :
    s'.sessions = s.sessions ∨ ∃ op : SessionOp, s.sessions.apply parseFilter now op = .ok s'.sessions ∧
      (∀ id domain, op ≠ .setDomain id domain) ∧ (∀ id, op ≠ .drainNotifications id) ∧
      ∀ old name, op = .rename old name → ∃ c, s.held c = some old := by
  have hgrant : ∀ {c : ℕ} {x : Except SessionError (SessionRegistry × SessionId)},
      some (s.grant c x) = some (s', e) → s'.sessions = s.sessions ∨ ∃ y, x = .ok y ∧ s'.sessions = y.1 := by
    intro c x hx
    have hg := Option.some.inj hx
    unfold grant at hg
    split at hg
    · exact .inl (congrArg (fun x => x.1.sessions) hg).symm
    · exact .inr ⟨_, rfl, (congrArg (fun x => x.1.sessions) hg).symm⟩
  have hsettle : ∀ {x : Except SessionError SessionRegistry},
      some (s.settle x) = some (s', e) → s'.sessions = s.sessions ∨ x = .ok s'.sessions := by
    intro x hx
    have hg := Option.some.inj hx
    unfold settle at hg
    split at hg
    · exact .inl (congrArg (fun x => x.1.sessions) hg).symm
    · exact .inr (congrArg (fun x => Except.ok x.1.sessions) hg)
  cases a with
  | createAnonymous c uuid =>
    simp only [act] at ha
    split at ha
    · refine (hgrant ha).imp_right fun hy => ⟨.createAnonymous uuid, ?_, by simp⟩
      obtain ⟨y, hy, hs'⟩ := hy
      rw [hs', ← Except.ok.inj hy]
      rfl
    · cases ha
  | createNamed c name =>
    simp only [act] at ha
    split at ha
    · refine (hgrant ha).imp_right fun hy => ⟨.createNamed name, ?_, by simp⟩
      obtain ⟨y, hy, hs'⟩ := hy
      simp only [SessionRegistry.apply, hy, hs', Except.map]
    · cases ha
  | claimNamed c name =>
    simp only [act] at ha
    split at ha
    · refine (hgrant ha).imp_right fun hy => ⟨.claimNamed name, ?_, by simp⟩
      obtain ⟨y, hy, hs'⟩ := hy
      obtain ⟨z, hz, rfl⟩ := exists_of_map_ok hy
      simp only [SessionRegistry.apply, hz, hs', Except.map]
    · cases ha
  | reconnectCheck c id =>
    simp only [act] at ha
    split at ha
    · split at ha
      · exact .inl (congrArg (fun x => x.1.sessions) (Option.some.inj ha)).symm
      · exact .inl (congrArg (fun x => x.1.sessions) (Option.some.inj ha)).symm
    · cases ha
  | reconnectClaim c id => exact absurd rfl (hclaim c id)
  | rename c name =>
    simp only [act] at ha
    split at ha
    · cases ha
    · rename_i old hold
      split at ha
      · refine (hgrant ha).imp_right fun hy => ⟨.rename old name, ?_, by simp, by simp, ?_⟩
        · obtain ⟨y, hy, hs'⟩ := hy
          obtain ⟨z, hz, rfl⟩ := exists_of_map_ok hy
          simp only [SessionRegistry.apply, hz, hs', Except.map]
        · intro old' name' hop
          obtain ⟨rfl, rfl⟩ := SessionOp.rename.inj hop
          exact ⟨c, hold⟩
      · cases ha
  | disconnect c =>
    simp only [act] at ha
    split at ha
    · cases ha
    · rename_i id hid
      have hleft : s'.sessions = s.sessions.disconnect id now := by
        split at ha <;> split at ha
        · exact (congrArg (fun x => x.1.sessions) (Option.some.inj ha)).symm
        · cases ha
        · exact (congrArg (fun x => x.1.sessions) (Option.some.inj ha)).symm
        · cases ha
      refine .inr ⟨.disconnect id, ?_, by simp⟩
      rw [hleft]
      rfl
  | dropSession name =>
    simp only [act] at ha
    split at ha
    · exact (hsettle ha).imp_right fun hx => ⟨.dropSession name, hx, by simp⟩
    · cases ha
  | disposeIfExpired id ttl =>
    simp only [act] at ha
    split at ha
    · exact (hsettle ha).imp_right fun hx => ⟨.disposeIfExpired id ttl, hx, by simp⟩
    · cases ha

/-- Who owns what stays true while no session comes, goes, or changes hands. -/
theorem Inv.put (h : s.Inv) {sessions : SessionRegistry}
    (hsame : ∀ id, (sessions.get? id).map SessionState.connected = (s.sessions.get? id).map SessionState.connected) :
    (s.put sessions).Inv := by
  have hnone : ∀ id, sessions.get? id = none ↔ s.sessions.get? id = none := fun id => by
    rw [← Option.map_eq_none_iff (f := SessionState.connected), hsame id, Option.map_eq_none_iff]
  refine ⟨fun c id hc => ?_, h.unique, fun name hn => (hnone _).mpr (h.apart name fun hno => hn ((hnone _).mpr hno))⟩
  obtain ⟨st, hst, hconn⟩ := h.owned c id hc
  have hmap := hsame id
  rw [hst, Option.map_some, hconn] at hmap
  obtain ⟨st', hst', hconn'⟩ := Option.map_eq_some_iff.mp hmap
  exact ⟨st', hst', hconn'⟩

/-- So it is when one session changes, however it does, and stays connected or
disconnected. -/
theorem Inv.modify (h : s.Inv) (id : SessionId) {f : SessionState → SessionState}
    (hf : ∀ st, (f st).connected = st.connected) : (s.put (s.sessions.modify id f)).Inv := by
  refine h.put fun id' => ?_
  rw [SessionRegistry.get?_modify]
  split
  · rw [Option.map_map]
    exact congrArg (Option.map · _) (funext hf)
  · rfl

end OwnerRun

namespace SessionRegistry

/-- What `drain_notifications` takes. -/
def queueOf (s : SessionRegistry) (id : SessionId) : List PipelineEvent :=
  match s.get? id with
  | some st => st.notificationQueue
  | none => []

def domainOf (s : SessionRegistry) (id : SessionId) : DomainId :=
  match s.get? id with
  | some st => st.domain
  | none => .default

end SessionRegistry

namespace Notices

/-! ### Firings -/

inductive FiringStage
  | matched
  | queued
  | sent
  deriving DecidableEq

/-- A trigger that fired for a session, in a domain that has the channel, and
how far the processor has come with it. -/
structure Firing where
  sid : SessionId
  channel : ℕ
  event : PipelineEvent
  stage : FiringStage
  deriving DecidableEq

/-! ### Connections -/

/-- How far `handle_connection` has come. -/
inductive ConnStage
  /-- The session is taken over. -/
  | opening
  /-- The queue is drained, and what is left of it to write. -/
  | draining (left : List PipelineEvent)
  /-- Subscribed, for a domain, to a channel. -/
  | live (domain : DomainId) (channel : ℕ) (rx : Subscription)
  /-- A request is handled and not yet answered. -/
  | answering (domain : DomainId) (channel : ℕ) (rx : Subscription)
  | closed
  deriving DecidableEq

/-- A connection, with the queue it drained and the notifications it wrote. Of
these `heard` came from its present subscription, under its present id. -/
structure Conn where
  stage : ConnStage
  drained : List PipelineEvent
  written : List PipelineEvent
  heard : List PipelineEvent
  deriving DecidableEq

def Conn.opened : Conn := ⟨.opening, [], [], []⟩

/-- A request, as far as it moves sessions. -/
inductive ConnRequest
  | rename (name : String)
  | useDomain (domain : DomainId)
  | dropSession (name : String)
  | other

inductive ConnAct
  /-- The domain that `session.start` asked for is bound. -/
  | bind (domain : DomainId)
  /-- The answer to `session.start` is out, and the queue drained. -/
  | start
  | write
  | subscribe
  | receive
  | request (now : ℕ) (r : ConnRequest)
  | answer
  /-- The channel is closed. -/
  | reopen
  /-- A write failed, or the client has gone: `SessionCleanup` runs. -/
  | fail (now : ℕ)

/-! ### The daemon -/

/-- The sessions and who owns them, the domains' channels with all that was
broadcast on each, the processors' firings, and the connections. `offered` are
the notifications that came to a session's queue, taken or not. -/
structure NoticeRun where
  owners : OwnerRun
  current : FMap DomainId ℕ
  made : ℕ
  channels : ℕ → List PipelineEvent
  firings : List Firing
  offered : List (SessionId × PipelineEvent)
  conns : List Conn

inductive NoticeAct
  | claim (now : ℕ) (name : String)
  | anonymous (now : ℕ) (uuid : SessionName)
  | conn (c : ℕ) (a : ConnAct)
  | dispose (now : ℕ) (id : SessionId) (ttl : ℕ)
  | createDomain (id : DomainId)
  | deleteDomain (id : DomainId)
  | fire (sid : SessionId) (channel : ℕ) (event : PipelineEvent)
  | queue (i : ℕ)
  | send (i : ℕ)

/-- The sessions of a state file are restored, and there is the default domain. -/
def NoticeRun.boot (env : ParseEnv) (now : ℕ) (saved : List (SessionName × PersistedSession)) : NoticeRun where
  owners := .boot (restoreAll env now saved).1
  current := (∅ : FMap DomainId ℕ).insert .default 0
  made := 1
  channels := fun _ => []
  firings := []
  offered := []
  conns := []

namespace Conn

variable (retained : ℕ) (s : NoticeRun) (c : ℕ) (id : SessionId) (k : Conn)

/-- A request is handled. A renamed session's connection goes by its new id
from here on. -/
def handle (now : ℕ) (domain : DomainId) (channel : ℕ) (rx : Subscription) : ConnRequest → Option (OwnerRun × Conn)
  | .rename name =>
    match s.owners.act now (.rename c name) with
    | some (owners, none) => some (owners, { k with stage := .answering domain channel rx.rebase, heard := [] })
    | some (owners, some _) => some (owners, { k with stage := .answering domain channel rx })
    | none => none
  | .useDomain d =>
    if (s.current.get? d).isSome then
      some (s.owners.put (s.owners.sessions.setDomain id d), { k with stage := .answering domain channel rx })
    else some (s.owners, { k with stage := .answering domain channel rx })
  | .dropSession name =>
    match s.owners.act now (.dropSession name) with
    | some (owners, _) => some (owners, { k with stage := .answering domain channel rx })
    | none => none
  | .other => some (s.owners, { k with stage := .answering domain channel rx })

/-- Subscribed anew. -/
def subscribed (domain : DomainId) (channel : ℕ) : Conn :=
  { k with stage := .live domain channel (.subscribe (s.channels channel)), heard := [] }

/-- One step of the connection `c` of the session `id`. -/
def run : ConnAct → Option (OwnerRun × Conn)
  | .bind domain =>
    match k.stage with
    | .opening => some (s.owners.put (s.owners.sessions.setDomain id domain), k)
    | _ => none
  | .start =>
    match k.stage with
    | .opening =>
      let queued := s.owners.sessions.queueOf id
      some (s.owners.put (s.owners.sessions.drainNotifications id),
        { k with stage := .draining queued, drained := queued })
    | _ => none
  | .write =>
    match k.stage with
    | .draining (e :: left) => some (s.owners, { k with stage := .draining left, written := k.written ++ [e] })
    | _ => none
  | .subscribe =>
    match k.stage with
    | .draining [] =>
      -- the session's domain, even where its channel is gone and the default's is taken
      let domain := s.owners.sessions.domainOf id
      match (s.current.get? domain).or (s.current.get? .default) with
      | some channel => some (s.owners, k.subscribed s domain channel)
      | none => none
    | _ => none
  | .receive =>
    match k.stage with
    | .live domain channel rx =>
      match rx.receive retained (s.channels channel) with
      | (rx, .value e) =>
        if e.sessionId = id.name.text then
          some (s.owners,
            { k with stage := .live domain channel rx, written := k.written ++ [e], heard := k.heard ++ [e] })
        else some (s.owners, { k with stage := .live domain channel rx })
      | (rx, .lagged _) => some (s.owners, { k with stage := .live domain channel rx })
      | (_, .empty) => none
    | _ => none
  | .request now r =>
    match k.stage with
    | .live domain channel rx => k.handle s c id now domain channel rx r
    | _ => none
  | .answer =>
    match k.stage with
    | .answering domain channel rx =>
      let bound := s.owners.sessions.domainOf id
      if bound = domain then some (s.owners, { k with stage := .live domain channel rx })
      else
        match s.current.get? bound with
        | some channel => some (s.owners, k.subscribed s bound channel)
        | none => some (s.owners, { k with stage := .live domain channel rx })
    | _ => none
  | .reopen =>
    match k.stage with
    | .live _ channel rx =>
      -- a channel closes when its domain is gone and no firing has it in hand
      if (s.current.entries.all fun q => q.2 ≠ channel) && (s.firings.all fun f => f.channel ≠ channel || f.stage = .sent) &&
          rx.pos = (s.channels channel).length then
        let bound := s.owners.sessions.domainOf id
        match s.current.get? bound with
        | some channel => some (s.owners, k.subscribed s bound channel)
        | none =>
          match s.current.get? .default with
          | some channel => some (s.owners, k.subscribed s .default channel)
          | none => none
      else none
    | _ => none
  | .fail now =>
    match s.owners.act now (.disconnect c) with
    | some (owners, _) => some (owners, { k with stage := .closed })
    | none => none

end Conn

namespace NoticeRun

/-- A handshake's claim: a connection of its own, where it was not refused. -/
def opened (s : NoticeRun) : Option (OwnerRun × Option SessionError) → Option NoticeRun
  | some (owners, none) => some { s with owners, conns := s.conns ++ [.opened] }
  | some (_, some _) => none
  | none => none

/-- `send_or_queue_notification`. -/
def queue (s : NoticeRun) (i : ℕ) (f : Firing) : NoticeRun :=
  { s with
    owners := s.owners.put (s.owners.sessions.sendOrQueueNotification f.sid f.event)
    firings := s.firings.set i { f with stage := .queued }
    offered := s.offered ++ [(f.sid, f.event)] }

/-- `send_event`. -/
def send (s : NoticeRun) (i : ℕ) (f : Firing) : NoticeRun :=
  { s with
    channels := Function.update s.channels f.channel (s.channels f.channel ++ [f.event])
    firings := s.firings.set i { f with stage := .sent } }

def step (retained : ℕ) (s : NoticeRun) : NoticeAct → Option NoticeRun
  | .claim now name => s.opened (s.owners.act now (.claimNamed s.conns.length name))
  | .anonymous now uuid => s.opened (s.owners.act now (.createAnonymous s.conns.length uuid))
  | .conn c a =>
    match s.conns[c]?, s.owners.held c with
    | some k, some id =>
      match k.run retained s c id a with
      | some (owners, k) => some { s with owners, conns := s.conns.set c k }
      | none => none
    | _, _ => none
  | .dispose now id ttl =>
    match s.owners.act now (.disposeIfExpired id ttl) with
    | some (owners, _) => some { s with owners }
    | none => none
  | .createDomain id =>
    match s.current.get? id with
    | some _ => none
    | none => some { s with current := s.current.insert id s.made, made := s.made + 1 }
  | .deleteDomain id => if id = .default then none else some { s with current := s.current.erase id }
  | .fire sid channel event =>
    -- the session was listed and its triggers evaluated under earlier locks
    if (s.owners.sessions.get? sid).isSome && channel < s.made then
      some { s with firings := s.firings ++ [⟨sid, channel, { event with sessionId := sid.name.text }, .matched⟩] }
    else none
  | .queue i =>
    match s.firings[i]? with
    | some f => if f.stage = .matched then some (s.queue i f) else none
    | none => none
  | .send i =>
    match s.firings[i]? with
    | some f => if f.stage = .queued then some (s.send i f) else none
    | none => none

end NoticeRun

/-! ### What a connection's step did -/

namespace Conn

variable (retained : ℕ) (s : NoticeRun) (c : ℕ) (id : SessionId) (k : Conn)

/-- What a request that does not rename the session does to the sessions. -/
inductive Handled : OwnerRun → Prop
  | same : Handled s.owners
  | bound (domain : DomainId) : Handled (s.owners.put (s.owners.sessions.setDomain id domain))
  | dropped {owners : OwnerRun} {now : ℕ} {name : String} {e : Option SessionError} :
    s.owners.act now (.dropSession name) = some (owners, e) → Handled owners

/-- One step: the sessions after it, and the connection. -/
inductive Moves : OwnerRun → Conn → Prop
  | bound : k.stage = .opening → ∀ domain, Moves (s.owners.put (s.owners.sessions.setDomain id domain)) k
  | started : k.stage = .opening → Moves (s.owners.put (s.owners.sessions.drainNotifications id))
      { k with stage := .draining (s.owners.sessions.queueOf id), drained := s.owners.sessions.queueOf id }
  | wrote {e : PipelineEvent} {left : List PipelineEvent} : k.stage = .draining (e :: left) →
    Moves s.owners { k with stage := .draining left, written := k.written ++ [e] }
  | subscribed : k.stage = .draining [] → ∀ domain channel, Moves s.owners (k.subscribed s domain channel)
  | heard {domain : DomainId} {channel : ℕ} {rx rx' : Subscription} {e : PipelineEvent} :
    k.stage = .live domain channel rx → rx.receive retained (s.channels channel) = (rx', .value e) →
    e.sessionId = id.name.text →
    Moves s.owners { k with stage := .live domain channel rx', written := k.written ++ [e], heard := k.heard ++ [e] }
  | skipped {domain : DomainId} {channel : ℕ} {rx rx' : Subscription} {e : PipelineEvent} :
    k.stage = .live domain channel rx → rx.receive retained (s.channels channel) = (rx', .value e) →
    e.sessionId ≠ id.name.text → Moves s.owners { k with stage := .live domain channel rx' }
  | lagged {domain : DomainId} {channel n : ℕ} {rx rx' : Subscription} :
    k.stage = .live domain channel rx → rx.receive retained (s.channels channel) = (rx', .lagged n) →
    Moves s.owners { k with stage := .live domain channel rx' }
  | renamed {domain : DomainId} {channel now : ℕ} {rx : Subscription} {name : String} {owners : OwnerRun} :
    k.stage = .live domain channel rx → s.owners.act now (.rename c name) = some (owners, none) →
    Moves owners { k with stage := .answering domain channel rx.rebase, heard := [] }
  | handled {domain : DomainId} {channel : ℕ} {rx : Subscription} {owners : OwnerRun} :
    k.stage = .live domain channel rx → Handled s id owners →
    Moves owners { k with stage := .answering domain channel rx }
  | answered {domain : DomainId} {channel : ℕ} {rx : Subscription} :
    k.stage = .answering domain channel rx → Moves s.owners { k with stage := .live domain channel rx }
  | moved {domain : DomainId} {channel : ℕ} {rx : Subscription} :
    k.stage = .answering domain channel rx ∨ k.stage = .live domain channel rx →
    ∀ domain' channel', Moves s.owners (k.subscribed s domain' channel')
  | failed {owners : OwnerRun} {now : ℕ} {e : Option SessionError} :
    s.owners.act now (.disconnect c) = some (owners, e) → Moves owners { k with stage := .closed }

variable {retained : ℕ} {s : NoticeRun} {c : ℕ} {id : SessionId} {k k' : Conn} {owners : OwnerRun}

theorem moves_of_handle {now channel : ℕ} {domain : DomainId} {rx : Subscription} {r : ConnRequest}
    (hst : k.stage = .live domain channel rx) (h : k.handle s c id now domain channel rx r = some (owners, k')) :
    k.Moves retained s c id owners k' := by
  cases r with
  | rename name =>
    simp only [handle] at h
    split at h
    · rename_i owners' ha
      obtain ⟨rfl, rfl⟩ := Prod.mk.inj (Option.some.inj h)
      exact .renamed hst ha
    · rename_i owners' err ha
      obtain ⟨rfl, rfl⟩ := Prod.mk.inj (Option.some.inj h)
      rw [OwnerRun.act_refused ha]
      exact .handled hst .same
    · cases h
  | useDomain d =>
    simp only [handle] at h
    split at h
    · obtain ⟨rfl, rfl⟩ := Prod.mk.inj (Option.some.inj h)
      exact .handled hst (.bound d)
    · obtain ⟨rfl, rfl⟩ := Prod.mk.inj (Option.some.inj h)
      exact .handled hst .same
  | dropSession name =>
    simp only [handle] at h
    split at h
    · rename_i owners' e ha
      obtain ⟨rfl, rfl⟩ := Prod.mk.inj (Option.some.inj h)
      exact .handled hst (.dropped ha)
    · cases h
  | other =>
    obtain ⟨rfl, rfl⟩ := Prod.mk.inj (Option.some.inj h)
    exact .handled hst .same

/-- **What one step of a connection can be.** -/
theorem moves_of_run {a : ConnAct} (h : k.run retained s c id a = some (owners, k')) :
    k.Moves retained s c id owners k' := by
  cases a with
  | bind domain =>
    simp only [run] at h
    split at h
    · rename_i hst
      obtain ⟨rfl, rfl⟩ := Prod.mk.inj (Option.some.inj h)
      exact .bound hst domain
    · cases h
  | start =>
    simp only [run] at h
    split at h
    · rename_i hst
      obtain ⟨rfl, rfl⟩ := Prod.mk.inj (Option.some.inj h)
      exact .started hst
    · cases h
  | write =>
    simp only [run] at h
    split at h
    · rename_i hst
      obtain ⟨rfl, rfl⟩ := Prod.mk.inj (Option.some.inj h)
      exact .wrote hst
    · cases h
  | subscribe =>
    simp only [run] at h
    split at h
    · rename_i hst
      split at h
      · obtain ⟨rfl, rfl⟩ := Prod.mk.inj (Option.some.inj h)
        exact .subscribed hst _ _
      · cases h
    · cases h
  | receive =>
    simp only [run] at h
    split at h
    · rename_i hst
      split at h
      · rename_i hr
        split at h
        · rename_i he
          obtain ⟨rfl, rfl⟩ := Prod.mk.inj (Option.some.inj h)
          exact .heard hst hr he
        · rename_i he
          obtain ⟨rfl, rfl⟩ := Prod.mk.inj (Option.some.inj h)
          exact .skipped hst hr he
      · rename_i hr
        obtain ⟨rfl, rfl⟩ := Prod.mk.inj (Option.some.inj h)
        exact .lagged hst hr
      · cases h
    · cases h
  | request now r =>
    simp only [run] at h
    split at h
    · rename_i hst
      exact moves_of_handle hst h
    · cases h
  | answer =>
    simp only [run] at h
    split at h
    · rename_i hst
      split at h
      · obtain ⟨rfl, rfl⟩ := Prod.mk.inj (Option.some.inj h)
        exact .answered hst
      · split at h
        · obtain ⟨rfl, rfl⟩ := Prod.mk.inj (Option.some.inj h)
          exact .moved (.inl hst) _ _
        · obtain ⟨rfl, rfl⟩ := Prod.mk.inj (Option.some.inj h)
          exact .answered hst
    · cases h
  | reopen =>
    simp only [run] at h
    split at h
    · rename_i hst
      split at h
      · split at h
        · obtain ⟨rfl, rfl⟩ := Prod.mk.inj (Option.some.inj h)
          exact .moved (.inr hst) _ _
        · split at h
          · obtain ⟨rfl, rfl⟩ := Prod.mk.inj (Option.some.inj h)
            exact .moved (.inr hst) _ _
          · cases h
      · cases h
    · cases h
  | fail now =>
    simp only [run] at h
    split at h
    · rename_i ha
      obtain ⟨rfl, rfl⟩ := Prod.mk.inj (Option.some.inj h)
      exact .failed ha
    · cases h

end Conn

end Notices
end Logmon
