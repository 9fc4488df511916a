/-
# Calls over one connection

`sdk/src/bridge.rs`: the calls of one connection to the daemon, its reader
task, and the map from request ids to the calls that wait for a reply. Every
lock and every await is a step of its own, and calls come, fail to write and
are abandoned in any order. A call writes under the writer lock, and its write
ends when the transport answers, if it does; a caller that drops its call drops
the lock with it. JSON values are a parameter, and so is how a payload is read.

A call that ends with a result or with an error of the daemon ends with a
response under its own id that the reader has read (`calls_get_their_own_reply`).
The reader marks the connection closed and drops the senders in one step, and
a call looks at the mark and registers in one step; so a call that waits for a
reply has a sender in the map or an end to take. Once the connection is gone a
call can wait for nothing but a write, its own or that of the call that holds
the lock (`closed_calls_end`).

Key definitions: `Pending`, `Bridge`, `BridgeAct`, `Bridge.step`, `Bridge.Inv`.
Key theorems: `Bridge.Inv.step`, `calls_get_their_own_reply`, `closed_calls_end`.
-/
import Logmon.Lib.Reach
import Mathlib.Data.List.Perm.Basic
import Mathlib.Logic.Function.Basic

namespace Logmon
namespace Sdk

open Lib

variable {V P : Type}

/-! ### Messages -/

structure RpcError where
  code : ℤ
  message : String

structure RpcResponse (V : Type) where
  id : ℕ
  result : Option V
  error : Option RpcError

structure RpcNotification (V : Type) where
  method : String
  params : V

inductive DaemonMessage (V : Type)
  | response (resp : RpcResponse V)
  | notification (notif : RpcNotification V)

/-- What subscribers are told. -/
inductive Notification (P : Type)
  | triggerFired (payload : P)
  | reconnected

inductive BridgeError
  | transport (e : String)
  | rpc (code : ℤ) (message : String)
  | closed
  | protocol (msg : String)

/-- The typed form of a wire notification; unknown methods and payloads that
do not parse are dropped. -/
def notificationFromWire (payload : V → Option P) (notif : RpcNotification V) : Option (Notification P) :=
  if notif.method = "trigger_fired" ∨ notif.method = "notifications/trigger_fired" ∨ notif.method = "trigger.fired" then
    (payload notif.params).map .triggerFired
  else none

/-- What a call makes of its response: `null` where the result is missing. -/
def RpcResponse.outcome (null : V) (r : RpcResponse V) : Except BridgeError V :=
  match r.error with
  | some e => .error (.rpc e.code e.message)
  | none => .ok (r.result.getD null)

/-! ### The connection -/

/-- The ids whose senders wait in the map, and whether the connection is
gone. One lock guards both. -/
structure Pending where
  calls : List ℕ
  closed : Bool

/-- A call's end of its oneshot channel. -/
inductive Reply (V : Type)
  | empty
  | sent (r : RpcResponse V)
  | dropped

/-- Where a call stands: it has its id; its sender is in the map; it holds the
writer lock and writes; its request is written; it has returned. -/
inductive CallStage (V : Type)
  | numbered
  | registered
  | writing
  | waiting
  | done (r : Except BridgeError V)

structure Call (V : Type) where
  stage : CallStage V
  reply : Reply V

/-- Where the reader task stands: not spawned; in its loop; out of it; past
marking the connection closed; past its signal. -/
inductive ReaderStage
  | unstarted
  | reading
  | stopped
  | closed
  | signalled
  deriving DecidableEq

/-- Request ids end here: they are `u64`, from 1 on. -/
def maxRequestId : ℕ := 2 ^ 64 - 1

/-- One connection, and the call that holds its writer. The responses read so
far are kept for what is said of them. -/
structure Bridge (V : Type) where
  nextId : ℕ
  pending : Pending
  writer : Option ℕ
  calls : ℕ → Option (Call V)
  reader : ReaderStage
  heard : List (RpcResponse V)

/-- What happens on a connection: a call takes an id, registers, takes the
writer lock, takes its reply, or is dropped by its caller; the transport ends a
write, taking the request or failing; the reader starts, reads a message, leaves
its loop at the end of input or an error, closes the map, and signals. -/
inductive BridgeAct (V : Type)
  | call
  | register (id : ℕ)
  | lockWriter (id : ℕ)
  | write (id : ℕ) (failed : Option String)
  | take (id : ℕ)
  | abandon (id : ℕ)
  | startReader
  | read (msg : DaemonMessage V)
  | stop
  | close
  | signal

/-- What the reader broadcasts in a step. -/
def BridgeAct.said (payload : V → Option P) : BridgeAct V → List (Notification P)
  | .read (.notification notif) => (notificationFromWire payload notif).toList
  | _ => []

/-- The call whose own step this is. -/
def BridgeAct.own? : BridgeAct V → Option ℕ
  | .register id => some id
  | .lockWriter id => some id
  | .take id => some id
  | _ => none

namespace Bridge

/-- `spawn_without_reader`. -/
def spawnWithoutReader : Bridge V := ⟨1, ⟨[], false⟩, none, fun _ => none, .unstarted, []⟩

/-- A call moves on. -/
def put (s : Bridge V) (id : ℕ) (c : Call V) : Bridge V := { s with calls := Function.update s.calls id (some c) }

/-- A response finds its call's sender, and takes it out of the map, or it
finds none. The receiver may be gone. -/
def route (s : Bridge V) (resp : RpcResponse V) : Bridge V :=
  let s := { s with heard := s.heard ++ [resp] }
  if resp.id ∈ s.pending.calls then
    let s := { s with pending := { s.pending with calls := s.pending.calls.erase resp.id } }
    match s.calls resp.id with
    | some c => s.put resp.id { c with reply := .sent resp }
    | none => s
  else s

theorem route_reader (s : Bridge V) (resp : RpcResponse V) : (s.route resp).reader = s.reader := by
  unfold route
  simp only
  split
  · split <;> rfl
  · rfl

/-- No reply can arrive any more: every sender in the map is dropped, and the
connection is marked closed. -/
def closePending (s : Bridge V) : Bridge V :=
  { s with
    pending := ⟨[], true⟩
    calls := fun id => if id ∈ s.pending.calls then (s.calls id).map fun c => { c with reply := .dropped } else s.calls id }

/-- A call is dropped by its caller, and the writer lock with it where it holds it. -/
def drop (s : Bridge V) (id : ℕ) : Bridge V :=
  { s with
    calls := Function.update s.calls id none
    writer := if s.writer = some id then none else s.writer }

variable (null : V)

/-- One step. -/
def step (s : Bridge V) : BridgeAct V → Option (Bridge V)
  | .call =>
    if s.nextId ≤ maxRequestId then some ({ s with nextId := s.nextId + 1 }.put s.nextId ⟨.numbered, .empty⟩) else none
  | .register id =>
    match s.calls id with
    | some ⟨.numbered, reply⟩ =>
      if s.pending.closed then some (s.put id ⟨.done (.error .closed), reply⟩)
      else some ({ s with pending := { s.pending with calls := id :: s.pending.calls } }.put id ⟨.registered, reply⟩)
    | _ => none
  | .lockWriter id =>
    match s.calls id with
    | some ⟨.registered, reply⟩ =>
      if s.writer = none then some ({ s with writer := some id }.put id ⟨.writing, reply⟩) else none
    | _ => none
  | .write id failed =>
    match s.calls id with
    | some ⟨.writing, reply⟩ =>
      match failed with
      | some e => some ({ s with writer := none }.put id ⟨.done (.error (.transport e)), reply⟩)
      | none => some ({ s with writer := none }.put id ⟨.waiting, reply⟩)
    | _ => none
  | .take id =>
    match s.calls id with
    | some ⟨.waiting, .sent resp⟩ => some (s.put id ⟨.done (resp.outcome null), .sent resp⟩)
    | some ⟨.waiting, .dropped⟩ => some (s.put id ⟨.done (.error .closed), .dropped⟩)
    | _ => none
  | .abandon id => some (s.drop id)
  | .startReader => if s.reader = .unstarted then some { s with reader := .reading } else none
  | .read (.response resp) => if s.reader = .reading then some (s.route resp) else none
  | .read (.notification _) => if s.reader = .reading then some s else none
  | .stop => if s.reader = .reading then some { s with reader := .stopped } else none
  | .close => if s.reader = .stopped then some { s.closePending with reader := .closed } else none
  | .signal => if s.reader = .closed then some { s with reader := .signalled } else none

/-! ### What every state keeps -/

/-- What every state keeps about a call: a reply is under its own id; until it
has one its sender is in the map, and not before it registers; a dropped
sender means a closed connection; and it ends as its reply says. -/
structure CallOk (s : Bridge V) (id : ℕ) (c : Call V) : Prop where
  numbered : id < s.nextId
  early : c.stage = .numbered → c.reply = .empty ∧ id ∉ s.pending.calls
  sender : (c.stage = .registered ∨ c.stage = .writing ∨ c.stage = .waiting) → c.reply = .empty → id ∈ s.pending.calls
  sent : ∀ resp, c.reply = .sent resp → resp.id = id ∧ resp ∈ s.heard
  dropped : c.reply = .dropped → s.pending.closed = true
  ended : ∀ r, c.stage = .done r → (∃ e, r = .error (.transport e)) ∨
    (r = .error .closed ∧ s.pending.closed = true) ∨ ∃ resp ∈ s.heard, resp.id = id ∧ r = resp.outcome null

/-- What every state keeps; the writer lock is held by the call that writes. -/
structure Inv (s : Bridge V) : Prop where
  calls : ∀ id c, s.calls id = some c → CallOk null s id c
  writer : ∀ id, s.writer = some id ↔ (s.calls id).map Call.stage = some .writing
  issued : ∀ id ∈ s.pending.calls, id < s.nextId
  nodup : s.pending.calls.Nodup
  empty : s.pending.closed = true → s.pending.calls = []
  closed : s.pending.closed = true ↔ s.reader = .closed ∨ s.reader = .signalled

variable {null : V} {s s' : Bridge V} {id : ℕ} {c : Call V}

theorem inv_spawn : (spawnWithoutReader : Bridge V).Inv null := by
  refine ⟨fun id c hc => (by cases hc), fun id => ?_, fun id hid => (by cases hid), List.nodup_nil, fun _ => rfl, ?_⟩
  · simp [spawnWithoutReader]
  · simp [spawnWithoutReader]

theorem calls_put (id' : ℕ) : (s.put id c).calls id' = if id' = id then some c else s.calls id' :=
  Function.update_apply ..

/-- What is said of a call survives what leaves its id's place in the map. -/
theorem CallOk.keep (h : CallOk null s id c) (hn : s.nextId ≤ s'.nextId)
    (hp : id ∈ s'.pending.calls ↔ id ∈ s.pending.calls) (hc : s.pending.closed = true → s'.pending.closed = true)
    (hh : ∀ resp ∈ s.heard, resp ∈ s'.heard) : CallOk null s' id c where
  numbered := by
    have := h.numbered
    omega
  early he := ⟨(h.early he).1, fun hm => (h.early he).2 (hp.mp hm)⟩
  sender he hr := hp.mpr (h.sender he hr)
  sent resp hr := ⟨(h.sent resp hr).1, hh resp (h.sent resp hr).2⟩
  dropped hr := hc (h.dropped hr)
  ended r hr := by
    rcases h.ended r hr with he | ⟨he, hcl⟩ | ⟨resp, hm, hid, he⟩
    · exact .inl he
    · exact .inr (.inl ⟨he, hc hcl⟩)
    · exact .inr (.inr ⟨resp, hh resp hm, hid, he⟩)

/-- A call moves on within what is said of it, and takes, keeps or frees the
writer. -/
theorem Inv.hand (h : s.Inv null) (hc : CallOk null s id c) {w : Option ℕ}
    (hw : ∀ id', id' ≠ id → (w = some id' ↔ s.writer = some id')) (hid : w = some id ↔ c.stage = .writing) :
    ({ s with writer := w }.put id c).Inv null := by
  refine ⟨fun id' c' hc' => ?_, fun id' => ?_, h.issued, h.nodup, h.empty, h.closed⟩
  · rw [calls_put] at hc'
    by_cases he : id' = id
    · rw [if_pos he] at hc'
      obtain rfl := Option.some.inj hc'
      rw [he]
      exact hc.keep (le_refl _) Iff.rfl (fun h => h) fun _ h => h
    · rw [if_neg he] at hc'
      exact (h.calls id' c' hc').keep (le_refl _) Iff.rfl (fun h => h) fun _ h => h
  · rw [calls_put]
    by_cases he : id' = id
    · rw [if_pos he, he, Option.map_some, Option.some.injEq]
      exact hid
    · rw [if_neg he]
      exact (hw id' he).trans (h.writer id')

theorem Inv.stage_ne (h : s.Inv null) (hc : s.calls id = some c) (hn : c.stage ≠ .writing) : s.writer ≠ some id := by
  intro hw
  have hstage := (h.writer id).mp hw
  rw [hc, Option.map_some] at hstage
  exact hn (Option.some.inj hstage)

/-- A call that neither writes nor comes to. -/
theorem Inv.put (h : s.Inv null) (hc : CallOk null s id c) (hfree : s.writer ≠ some id) (hn : c.stage ≠ .writing) :
    (s.put id c).Inv null := h.hand hc (fun _ _ => Iff.rfl) (iff_of_false hfree hn)

/-! ### The calls' own steps -/

theorem Inv.call (h : s.Inv null) : ({ s with nextId := s.nextId + 1 }.put s.nextId ⟨.numbered, .empty⟩).Inv null := by
  have hfree : s.writer ≠ some s.nextId := by
    intro hw
    obtain ⟨c, hc, -⟩ := Option.map_eq_some_iff.mp ((h.writer _).mp hw)
    exact absurd (h.calls _ c hc).numbered (lt_irrefl _)
  refine Inv.put (s := { s with nextId := s.nextId + 1 }) ⟨fun id c hc => ?_, h.writer, fun id hid => ?_, h.nodup,
    h.empty, h.closed⟩ ⟨Nat.lt_succ_self _, fun _ => ⟨rfl, fun hm => ?_⟩, fun he => ?_, fun _ hr => ?_, fun hr => ?_,
    fun _ hr => ?_⟩ hfree (fun he => by cases he)
  · exact (h.calls id c hc).keep (Nat.le_succ _) Iff.rfl (fun h => h) fun _ h => h
  · exact Nat.lt_succ_of_lt (h.issued id hid)
  · exact absurd (h.issued _ hm) (lt_irrefl _)
  · rcases he with he | he | he <;> cases he
  · cases hr
  · cases hr
  · cases hr

/-- A call that ends, in a way that is said of it. -/
theorem CallOk.finish (hok : CallOk null s id c) {r : Except BridgeError V}
    (hr : (∃ e, r = .error (.transport e)) ∨ (r = .error .closed ∧ s.pending.closed = true) ∨
      ∃ resp ∈ s.heard, resp.id = id ∧ r = resp.outcome null) : CallOk null s id ⟨.done r, c.reply⟩ := by
  refine ⟨hok.numbered, fun he => (by cases he), fun he => ?_, hok.sent, hok.dropped, fun r' hr' => ?_⟩
  · rcases he with he | he | he <;> cases he
  · obtain rfl := CallStage.done.inj hr'
    exact hr

theorem Inv.finish (h : s.Inv null) (hc : s.calls id = some c) (hn : c.stage ≠ .writing) {r : Except BridgeError V}
    (hr : (∃ e, r = .error (.transport e)) ∨ (r = .error .closed ∧ s.pending.closed = true) ∨
      ∃ resp ∈ s.heard, resp.id = id ∧ r = resp.outcome null) : (s.put id ⟨.done r, c.reply⟩).Inv null :=
  h.put ((h.calls id c hc).finish hr) (h.stage_ne hc hn) fun he => by cases he

/-- A call between registering and its reply goes on. -/
theorem CallOk.goOn (hok : CallOk null s id c) (hc : c.stage = .registered ∨ c.stage = .writing ∨ c.stage = .waiting)
    {stage : CallStage V} (hs : stage = .writing ∨ stage = .waiting) : CallOk null s id ⟨stage, c.reply⟩ := by
  refine ⟨hok.numbered, fun he => ?_, fun _ => hok.sender hc, hok.sent, hok.dropped, fun _ hr => ?_⟩
  · rcases hs with hs | hs <;> cases hs.symm.trans he
  · rcases hs with hs | hs <;> cases hs.symm.trans hr

theorem Inv.register (h : s.Inv null) {reply : Reply V} (hc : s.calls id = some ⟨.numbered, reply⟩)
    (hopen : s.pending.closed = false) :
    ({ s with pending := { s.pending with calls := id :: s.pending.calls } }.put id ⟨.registered, reply⟩).Inv null := by
  have hok := h.calls id _ hc
  obtain ⟨rfl, hfree⟩ := hok.early rfl
  have hwriter := h.stage_ne hc fun he => by cases he
  refine ⟨fun id' c' hc' => ?_, fun id' => ?_, fun id' hid => ?_, List.nodup_cons.mpr ⟨hfree, h.nodup⟩, fun hcl => ?_,
    h.closed⟩
  · rw [calls_put] at hc'
    by_cases he : id' = id
    · rw [if_pos he] at hc'
      obtain rfl := Option.some.inj hc'
      subst he
      exact ⟨hok.numbered, fun he => (by cases he), fun _ _ => List.mem_cons_self, fun _ hr => (by cases hr),
        fun hr => (by cases hr), fun _ hr => by cases hr⟩
    · rw [if_neg he] at hc'
      refine (h.calls id' c' hc').keep (le_refl _) ?_ (fun h => h) fun _ h => h
      exact ⟨fun hm => (List.mem_cons.mp hm).resolve_left he, List.mem_cons_of_mem _⟩
  · rw [calls_put]
    by_cases he : id' = id
    · rw [if_pos he, he]
      exact iff_of_false hwriter fun hs => by cases hs
    · rw [if_neg he]
      exact h.writer id'
  · rcases List.mem_cons.mp hid with rfl | hid
    · exact hok.numbered
    · exact h.issued id' hid
  · exact absurd (hopen.symm.trans hcl) Bool.false_ne_true

theorem Inv.lockWriter (h : s.Inv null) {reply : Reply V} (hc : s.calls id = some ⟨.registered, reply⟩)
    (hfree : s.writer = none) : ({ s with writer := some id }.put id ⟨.writing, reply⟩).Inv null := by
  refine h.hand ((h.calls id _ hc).goOn (.inl rfl) (.inl rfl)) (fun id' he => ?_) (iff_of_true rfl rfl)
  rw [hfree]
  exact iff_of_false (fun hw => he (Option.some.inj hw).symm) fun hw => by cases hw

/-- A write that ends frees the lock. -/
theorem Inv.write (h : s.Inv null) {reply : Reply V} (hc : s.calls id = some ⟨.writing, reply⟩)
    (hok : CallOk null s id c) (hn : c.stage ≠ .writing) : ({ s with writer := none }.put id c).Inv null := by
  have hheld : s.writer = some id := (h.writer id).mpr (by rw [hc]; rfl)
  refine h.hand hok (fun id' he => ?_) (iff_of_false (fun hw => by cases hw) hn)
  rw [hheld]
  exact iff_of_false (fun hw => by cases hw) fun hw => he (Option.some.inj hw).symm

theorem Inv.abandon (h : s.Inv null) (id : ℕ) : (s.drop id).Inv null := by
  refine ⟨fun id' c' hc' => ?_, fun id' => ?_, h.issued, h.nodup, h.empty, h.closed⟩
  · change Function.update s.calls id none id' = some c' at hc'
    rw [Function.update_apply] at hc'
    by_cases he : id' = id
    · rw [if_pos he] at hc'
      cases hc'
    · rw [if_neg he] at hc'
      exact (h.calls id' c' hc').keep (le_refl _) Iff.rfl (fun h => h) fun _ h => h
  · change (if s.writer = some id then none else s.writer) = some id' ↔
      (Function.update s.calls id none id').map Call.stage = some .writing
    rw [Function.update_apply]
    by_cases he : id' = id
    · rw [if_pos he, he]
      refine iff_of_false (fun hw => ?_) fun hs => by cases hs
      split_ifs at hw with hheld
      exact hheld hw
    · rw [if_neg he, ← h.writer id']
      split_ifs with hheld
      · rw [hheld]
        exact iff_of_false (fun hw => by cases hw) fun hw => he (Option.some.inj hw).symm
      · exact Iff.rfl

/-! ### The reader's steps -/

/-- The reader's own moves, short of closing the map. -/
theorem Inv.reader (h : s.Inv null) (r : ReaderStage) (hr : s.pending.closed = true ↔ r = .closed ∨ r = .signalled) :
    ({ s with reader := r } : Bridge V).Inv null :=
  ⟨fun id c hc => (h.calls id c hc).keep (le_refl _) Iff.rfl (fun h => h) fun _ h => h, h.writer, h.issued, h.nodup,
    h.empty, hr⟩

theorem Inv.route (h : s.Inv null) (resp : RpcResponse V) : (s.route resp).Inv null := by
  have hheard : ({ s with heard := s.heard ++ [resp] } : Bridge V).Inv null :=
    ⟨fun id c hc => (h.calls id c hc).keep (le_refl _) Iff.rfl (fun h => h) fun r hr => List.mem_append_left _ hr,
      h.writer, h.issued, h.nodup, h.empty, h.closed⟩
  unfold Bridge.route
  simp only
  split
  · rename_i hm
    have hnodup := h.nodup.erase resp.id
    have hissued : ∀ id ∈ s.pending.calls.erase resp.id, id < s.nextId := fun id hid => h.issued id (List.mem_of_mem_erase hid)
    have hempty : s.pending.closed = true → s.pending.calls.erase resp.id = [] := fun hcl => by
      rw [h.empty hcl] at hm
      cases hm
    have hother : ∀ id' c', id' ≠ resp.id → s.calls id' = some c' →
        CallOk null { s with
          heard := s.heard ++ [resp]
          pending := { s.pending with calls := s.pending.calls.erase resp.id } } id' c' := fun id' c' hne hc' =>
      (h.calls id' c' hc').keep (le_refl _) (List.mem_erase_of_ne hne) (fun h => h) fun r hr => List.mem_append_left _ hr
    cases hc : s.calls resp.id with
    | none =>
      refine ⟨fun id' c' hc' => hother id' c' (fun he => ?_) hc', h.writer, hissued, hnodup, hempty, h.closed⟩
      rw [he, hc] at hc'
      cases hc'
    | some c =>
      have hok := h.calls _ c hc
      refine ⟨fun id' c' hc' => ?_, fun id' => ?_, hissued, hnodup, hempty, h.closed⟩
      · rw [calls_put] at hc'
        by_cases he : id' = resp.id
        · rw [if_pos he] at hc'
          obtain rfl := Option.some.inj hc'
          subst he
          refine ⟨hok.numbered, fun he => absurd hm (hok.early he).2, fun _ hr => (by cases hr), fun r hr => ?_,
            fun hr => (by cases hr), fun r hr => ?_⟩
          · obtain rfl := Reply.sent.inj hr
            exact ⟨rfl, List.mem_append_right _ List.mem_cons_self⟩
          · rcases hok.ended r hr with he | he | ⟨resp', hm', he⟩
            · exact .inl he
            · exact .inr (.inl he)
            · exact .inr (.inr ⟨resp', List.mem_append_left _ hm', he⟩)
        · rw [if_neg he] at hc'
          exact (hother id' c' he hc').keep (le_refl _) Iff.rfl (fun h => h) fun _ h => h
      · -- the call's stage is as it was
        rw [calls_put]
        by_cases he : id' = resp.id
        · have hwriter := h.writer id'
          rw [he, hc, Option.map_some] at hwriter
          rw [if_pos he, he, Option.map_some]
          exact hwriter
        · rw [if_neg he]
          exact h.writer id'
  · exact hheard

theorem Inv.closePending (h : s.Inv null) : ({ s.closePending with reader := .closed } : Bridge V).Inv null := by
  refine ⟨fun id c hc => ?_, fun id => ?_, fun id hid => (by cases hid), List.nodup_nil, fun _ => rfl,
    by simp [Bridge.closePending]⟩
  · simp only [Bridge.closePending] at hc ⊢
    split at hc
    · rename_i hm
      obtain ⟨c', hc', rfl⟩ := Option.map_eq_some_iff.mp hc
      have hok := h.calls id c' hc'
      refine ⟨hok.numbered, fun he => absurd hm (hok.early he).2, fun _ hr => (by cases hr), fun _ hr => (by cases hr),
        fun _ => rfl, fun r hr => ?_⟩
      rcases hok.ended r hr with he | ⟨he, -⟩ | he
      · exact .inl he
      · exact .inr (.inl ⟨he, rfl⟩)
      · exact .inr (.inr he)
    · rename_i hm
      have hok := h.calls id c hc
      refine hok.keep (le_refl _) ?_ (fun _ => rfl) fun _ h => h
      exact ⟨fun hx => (by cases hx), fun hx => absurd hx hm⟩
  · refine (h.writer id).trans ?_
    simp only [Bridge.closePending]
    split_ifs
    · rw [Option.map_map]
      rfl
    · exact Iff.rfl

/-- The step lemma. -/
theorem Inv.step (h : s.Inv null) {a : BridgeAct V} (hs : s.step null a = some s') : s'.Inv null := by
  cases a with
  | call =>
    simp only [Bridge.step] at hs
    split at hs
    · obtain rfl := Option.some.inj hs
      exact h.call
    · cases hs
  | register id =>
    simp only [Bridge.step] at hs
    split at hs
    · rename_i reply hc
      split at hs
      · rename_i hcl
        obtain rfl := Option.some.inj hs
        exact h.finish hc (fun he => by cases he) (.inr (.inl ⟨rfl, hcl⟩))
      · rename_i hcl
        obtain rfl := Option.some.inj hs
        exact h.register hc (Bool.eq_false_iff.mpr hcl)
    · cases hs
  | lockWriter id =>
    simp only [Bridge.step] at hs
    split at hs
    · rename_i reply hc
      split at hs
      · rename_i hfree
        obtain rfl := Option.some.inj hs
        exact h.lockWriter hc hfree
      · cases hs
    · cases hs
  | write id failed =>
    simp only [Bridge.step] at hs
    split at hs
    · rename_i reply hc
      have hok := h.calls id _ hc
      cases failed with
      | some e =>
        obtain rfl := Option.some.inj hs
        exact h.write hc (hok.finish (.inl ⟨e, rfl⟩)) fun he => by cases he
      | none =>
        obtain rfl := Option.some.inj hs
        exact h.write hc (hok.goOn (.inr (.inl rfl)) (.inr rfl)) fun he => by cases he
    · cases hs
  | take id =>
    simp only [Bridge.step] at hs
    split at hs
    · rename_i resp hc
      obtain rfl := Option.some.inj hs
      have hsent := (h.calls id _ hc).sent resp rfl
      exact h.finish hc (fun he => by cases he) (.inr (.inr ⟨resp, hsent.2, hsent.1, rfl⟩))
    · rename_i hc
      obtain rfl := Option.some.inj hs
      exact h.finish hc (fun he => by cases he) (.inr (.inl ⟨rfl, (h.calls id _ hc).dropped rfl⟩))
    · cases hs
  | abandon id =>
    obtain rfl := Option.some.inj hs
    exact h.abandon id
  | startReader =>
    simp only [Bridge.step] at hs
    split at hs
    · rename_i hr
      obtain rfl := Option.some.inj hs
      exact h.reader _ (by rw [h.closed, hr]; decide)
    · cases hs
  | read msg =>
    cases msg with
    | response resp =>
      simp only [Bridge.step] at hs
      split at hs
      · obtain rfl := Option.some.inj hs
        exact h.route resp
      · cases hs
    | notification notif =>
      simp only [Bridge.step] at hs
      split at hs
      · obtain rfl := Option.some.inj hs
        exact h
      · cases hs
  | stop =>
    simp only [Bridge.step] at hs
    split at hs
    · rename_i hr
      obtain rfl := Option.some.inj hs
      exact h.reader _ (by rw [h.closed, hr]; decide)
    · cases hs
  | close =>
    simp only [Bridge.step] at hs
    split at hs
    · obtain rfl := Option.some.inj hs
      exact h.closePending
    · cases hs
  | signal =>
    simp only [Bridge.step] at hs
    split at hs
    · rename_i hr
      obtain rfl := Option.some.inj hs
      exact h.reader _ (by rw [h.closed, hr]; decide)
    · cases hs

/-- The run lemma. -/
theorem inv_of_reach (h : Reach (step null) (fun _ _ => True) spawnWithoutReader s) : s.Inv null :=
  h.invariant inv_spawn fun _ _ _ hi _ hs => hi.step hs

/-! ### What a call is promised -/

/-- **A call gets its own reply.** However calls and replies interleave, a
call that has ended ended with a response under its own id that the reader had
read, or because its request could not be written, or, on a connection that is
closed, without one. -/
theorem calls_get_their_own_reply
    (h : Reach (step null) (fun _ _ => True) spawnWithoutReader s) {reply : Reply V} {r : Except BridgeError V}
    (hc : s.calls id = some ⟨.done r, reply⟩) :
    (∃ resp ∈ s.heard, resp.id = id ∧ r = resp.outcome null) ∨ (∃ e, r = .error (.transport e)) ∨
      (r = .error .closed ∧ (s.reader = .closed ∨ s.reader = .signalled)) := by
  have hi := inv_of_reach h
  rcases (hi.calls id _ hc).ended r rfl with he | ⟨he, hcl⟩ | he
  · exact .inr (.inl he)
  · exact .inr (.inr ⟨he, hi.closed.mp hcl⟩)
  · exact .inl he

theorem calls_put_self : (s.put id c).calls id = some c := Function.update_self ..

/-- A call ends in `n` steps of its own at most. -/
def EndsIn (null : V) (s : Bridge V) (id n : ℕ) : Prop :=
  ∃ acts s' r reply, acts.length ≤ n ∧ (∀ a ∈ acts, a.own? = some id) ∧
    runActs (step null) s acts = some s' ∧ s'.calls id = some ⟨.done r, reply⟩

theorem endsIn_of_step {a : BridgeAct V} {r : Except BridgeError V} {reply : Reply V} (ha : a.own? = some id)
    (hs : s.step null a = some (s.put id ⟨.done r, reply⟩)) : EndsIn null s id 1 := by
  refine ⟨[a], s.put id ⟨.done r, reply⟩, r, reply, le_refl _, fun b hb => ?_, ?_, calls_put_self⟩
  · rw [List.mem_singleton.mp hb]
    exact ha
  · simp only [runActs, hs]

/-- A call that waits on a closed connection has its end to take. -/
theorem Inv.take_closed (h : s.Inv null) {reply : Reply V} (hc : s.calls id = some ⟨.waiting, reply⟩)
    (hcl : s.pending.closed = true) : EndsIn null s id 1 := by
  have hok := h.calls id _ hc
  cases reply with
  | empty =>
    have hm := hok.sender (.inr (.inr rfl)) rfl
    rw [h.empty hcl] at hm
    cases hm
  | sent resp =>
    have hs : s.step null (.take id) = some (s.put id ⟨.done (resp.outcome null), .sent resp⟩) := by
      simp only [Bridge.step, hc]
    exact endsIn_of_step rfl hs
  | dropped =>
    have hs : s.step null (.take id) = some (s.put id ⟨.done (.error .closed), .dropped⟩) := by
      simp only [Bridge.step, hc]
    exact endsIn_of_step rfl hs

/-- The write of a call on a closed connection, however it ends, leaves the call
one step at most from its end. -/
theorem Inv.write_closed (h : s.Inv null) {reply : Reply V} (hc : s.calls id = some ⟨.writing, reply⟩)
    (hcl : s.pending.closed = true) (failed : Option String) :
    ∃ s', s.step null (.write id failed) = some s' ∧ EndsIn null s' id 1 := by
  cases failed with
  | some e =>
    have hs : s.step null (.write id (some e)) =
        some ({ s with writer := none }.put id ⟨.done (.error (.transport e)), reply⟩) := by simp only [Bridge.step, hc]
    exact ⟨_, hs, [], _, _, _, Nat.zero_le 1, fun _ ha => (by cases ha), rfl, calls_put_self⟩
  | none =>
    have hs : s.step null (.write id none) = some ({ s with writer := none }.put id ⟨.waiting, reply⟩) := by
      simp only [Bridge.step, hc]
    exact ⟨_, hs, (h.step hs).take_closed calls_put_self hcl⟩

/-- **On a closed connection a call waits for nothing but a write.** A call that
has not registered, or has written its request, ends by one step of its own. One
that writes does when the transport has answered, whatever it answers. One that
is yet to write takes the writer lock if it is free, and else another call
writes, whose end frees it. -/
theorem closed_calls_end (h : Reach (step null) (fun _ _ => True) spawnWithoutReader s)
    (hgone : s.reader = .closed ∨ s.reader = .signalled) (hc : s.calls id = some c) :
    (c.stage ≠ .registered → c.stage ≠ .writing → EndsIn null s id 1) ∧
    (c.stage = .writing → ∀ failed, ∃ s', s.step null (.write id failed) = some s' ∧ EndsIn null s' id 1) ∧
    (c.stage = .registered →
      (s.writer = none → ∃ s', s.step null (.lockWriter id) = some s' ∧ s'.calls id = some ⟨.writing, c.reply⟩) ∧
      ∀ k, s.writer = some k → k ≠ id ∧ (s.calls k).map Call.stage = some .writing ∧
        ∀ failed, ∃ s', s.step null (.write k failed) = some s' ∧ s'.writer = none ∧ s'.calls id = some c) := by
  have hi := inv_of_reach h
  have hcl := hi.closed.mpr hgone
  obtain ⟨stage, reply⟩ := c
  refine ⟨fun hr hw => ?_, fun hw => ?_, fun hr => ⟨fun hfree => ?_, fun k hk => ?_⟩⟩
  · cases stage with
    | registered => exact absurd rfl hr
    | writing => exact absurd rfl hw
    | numbered =>
      have hs : s.step null (.register id) = some (s.put id ⟨.done (.error .closed), reply⟩) := by
        simp only [Bridge.step, hc, hcl, if_true]
      exact endsIn_of_step rfl hs
    | waiting => exact hi.take_closed hc hcl
    | done r => exact ⟨[], s, r, reply, Nat.zero_le 1, fun _ ha => (by cases ha), rfl, hc⟩
  · cases hw
    exact hi.write_closed hc hcl
  · cases hr
    have hs : s.step null (.lockWriter id) = some ({ s with writer := some id }.put id ⟨.writing, reply⟩) := by
      simp only [Bridge.step, hc, hfree, if_true]
    exact ⟨_, hs, calls_put_self⟩
  · cases hr
    have hne : k ≠ id := by
      rintro rfl
      exact hi.stage_ne hc (fun he => by cases he) hk
    have hstage := (hi.writer k).mp hk
    refine ⟨hne, hstage, fun failed => ?_⟩
    obtain ⟨⟨_, reply'⟩, hk', rfl⟩ := Option.map_eq_some_iff.mp hstage
    cases failed with
    | some e =>
      have hs : s.step null (.write k (some e)) =
          some ({ s with writer := none }.put k ⟨.done (.error (.transport e)), reply'⟩) := by simp only [Bridge.step, hk']
      exact ⟨_, hs, rfl, (calls_put id).trans ((if_neg hne.symm).trans hc)⟩
    | none =>
      have hs : s.step null (.write k none) = some ({ s with writer := none }.put k ⟨.waiting, reply'⟩) := by
        simp only [Bridge.step, hk']
      exact ⟨_, hs, rfl, (calls_put id).trans ((if_neg hne.symm).trans hc)⟩

/-- **A response ends the call it is for.** While the reader reads, a call
that waits for one has its sender in the map, so the first response under its
id is what it returns. -/
theorem response_ends_its_call (h : Reach (step null) (fun _ _ => True) spawnWithoutReader s)
    (hr : s.reader = .reading) (hc : s.calls id = some ⟨.waiting, .empty⟩) {resp : RpcResponse V} (hid : resp.id = id) :
    ∃ s', runActs (step null) s [.read (.response resp), .take id] = some s' ∧
      s'.calls id = some ⟨.done (resp.outcome null), .sent resp⟩ := by
  subst hid
  have hm := ((inv_of_reach h).calls _ _ hc).sender (.inr (.inr rfl)) rfl
  have hread : s.step null (.read (.response resp)) = some (s.route resp) :=
    by simp only [Bridge.step, hr, if_true]
  have hgot : (s.route resp).calls resp.id = some ⟨.waiting, .sent resp⟩ := by
    simp only [Bridge.route, hm, if_true, hc]
    exact calls_put_self
  have htake : (s.route resp).step null (.take resp.id) =
      some ((s.route resp).put resp.id ⟨.done (resp.outcome null), .sent resp⟩) :=
    by simp only [Bridge.step, hgot]
  refine ⟨(s.route resp).put resp.id ⟨.done (resp.outcome null), .sent resp⟩, ?_, calls_put_self⟩
  simp only [runActs, hread, htake]

/-- Three calls; the second's reply comes first, the third is in its write and
the first still without a reply when the connection ends. -/
def crossedReplies : List (BridgeAct ℕ) :=
  [.startReader, .call, .register 1, .call, .register 2, .lockWriter 1, .write 1 none, .lockWriter 2, .write 2 none,
    .call, .register 3, .call, .register 4, .lockWriter 3, .read (.response ⟨2, some 7, none⟩), .take 2, .stop, .close]

/-- Its state. -/
def afterCrossed : Bridge ℕ := (runActs (step 0) spawnWithoutReader crossedReplies).getD spawnWithoutReader

theorem reach_crossed : Reach (step 0) (fun _ _ => True) spawnWithoutReader afterCrossed :=
  reach_guarded (g := fun _ _ => true) (fun _ _ _ => trivial) crossedReplies .start rfl

theorem calls_get_their_own_reply_crossed : afterCrossed.calls 2 = some ⟨.done (.ok 7), .sent ⟨2, some 7, none⟩⟩ ∧
    ((∃ resp ∈ afterCrossed.heard, resp.id = 2 ∧ (Except.ok 7 : Except BridgeError ℕ) = resp.outcome 0) ∨
      (∃ e, (Except.ok 7 : Except BridgeError ℕ) = .error (.transport e)) ∨
      ((Except.ok 7 : Except BridgeError ℕ) = .error .closed ∧
        (afterCrossed.reader = .closed ∨ afterCrossed.reader = .signalled))) :=
  ⟨rfl, calls_get_their_own_reply reach_crossed rfl⟩

/-- The first ends, the third ends when its write does, and the fourth waits for
that write. -/
theorem closed_calls_end_crossed : EndsIn 0 afterCrossed 1 1 ∧
    (∀ failed, ∃ s', afterCrossed.step 0 (.write 3 failed) = some s' ∧ EndsIn 0 s' 3 1) ∧
    ∀ failed, ∃ s', afterCrossed.step 0 (.write 3 failed) = some s' ∧ s'.writer = none ∧
      s'.calls 4 = some ⟨.registered, .dropped⟩ := by
  have hfirst : afterCrossed.calls 1 = some ⟨.waiting, .dropped⟩ := rfl
  have hthird : afterCrossed.calls 3 = some ⟨.writing, .dropped⟩ := rfl
  have hfourth : afterCrossed.calls 4 = some ⟨.registered, .dropped⟩ := rfl
  exact ⟨(closed_calls_end reach_crossed (.inl rfl) hfirst).1 (fun h => by cases h) (fun h => by cases h),
    (closed_calls_end reach_crossed (.inl rfl) hthird).2.1 rfl,
    (((closed_calls_end reach_crossed (.inl rfl) hfourth).2.2 rfl).2 3 rfl).2.2⟩

end Bridge
end Sdk
end Logmon
