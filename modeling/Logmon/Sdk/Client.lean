/-
# A client and its connections

`sdk/src/reconnect.rs` and `call_maybe_rendered` of `sdk/src/connect.rs`: the
connection state of one broker session, and the tasks that read and change it.
Calls look the state up, wait while a reconnect is under way, go through the
bridge they were given, and report it when it fails; a report of a lost
connection starts the reconnect loop, which dials with growing pauses until
the daemon resumes the session, has forgotten it, or the attempts are used up.

A task runs from one lock, await or notification to the next in one step, and
tasks interleave in any order. `notify_waiters` wakes the futures that exist:
`epoch` counts its calls, and a future remembers the count it was made at.
What a handshake sends is left out; what it ends with is data of the step, and
so is how long a pause the loop takes, within what its jitter allows. Settings
so long that a pause would not fit a `Duration`, where the loop panics, have no
such step.

Key definitions: `BrokerBuilder`, `ConnectionState`, `Task`, `Client`,
`ClientAct`, `Client.step`.
-/
import Logmon.Lib.Slot
import Logmon.Sdk.Bridge

namespace Logmon
namespace Sdk

open Lib

variable {V P : Type}

/-! ### The settings -/

/-- `Duration::MAX`, in nanoseconds. -/
def maxDuration : ℕ := (2 ^ 64 - 1) * 1000000000 + 999999999

/-- The settings a reconnect reads; durations in nanoseconds. -/
structure BrokerBuilder where
  sessionName : Option String
  reconnectMaxAttempts : ℕ
  reconnectMaxBackoff : ℕ
  reconnectInitialBackoff : ℕ
  callTimeout : Option ℕ
  fits : reconnectMaxBackoff ≤ maxDuration

namespace BrokerBuilder

theorem thirtySeconds_fits : 30000000000 ≤ maxDuration := by decide

def default : BrokerBuilder where
  sessionName := none
  reconnectMaxAttempts := 10
  reconnectMaxBackoff := 30000000000
  reconnectInitialBackoff := 100000000
  callTimeout := none
  fits := thirtySeconds_fits

/-- How long a call may take: five minutes where the product overflows. -/
def resolvedCallTimeout (cfg : BrokerBuilder) : ℕ :=
  cfg.callTimeout.getD
    (if cfg.reconnectMaxBackoff * cfg.reconnectMaxAttempts ≤ maxDuration then
      cfg.reconnectMaxBackoff * cfg.reconnectMaxAttempts
    else 300000000000)

/-- The backoff after one that failed. -/
def nextBackoff (cfg : BrokerBuilder) (backoff : ℕ) : ℕ := min (min (backoff * 2) maxDuration) cfg.reconnectMaxBackoff

end BrokerBuilder

/-- A pause of the backoff times a jitter, 0.85 to 1.15. The product is one of
`f32` and rounded to a nanosecond; a thousandth of the backoff is more than the
rounding of the floats takes or adds. -/
def jittered (backoff pause : ℕ) : Prop := 849 * backoff ≤ 1000 * (pause + 1) ∧ 1000 * pause ≤ 1151 * backoff + 1000

instance (backoff pause : ℕ) : Decidable (jittered backoff pause) := inferInstanceAs (Decidable (_ ∧ _))

/-! ### The state -/

inductive BrokerError
  | transport (e : String)
  | protocol (msg : String)
  | method (code : ℤ) (message : String)
  | disconnected
  | sessionLost

def mapBridgeError : BridgeError → BrokerError
  | .transport e => .transport e
  | .rpc code message => .method code message
  | .closed => .disconnected
  | .protocol msg => .protocol msg

/-- The bridge is dead, not just this call refused. -/
def isTransportError : BridgeError → Bool
  | .transport _ => true
  | .closed => true
  | _ => false

inductive TerminalReason
  | sessionLost
  | disconnected
  deriving DecidableEq

def TerminalReason.intoError : TerminalReason → BrokerError
  | .sessionLost => .sessionLost
  | .disconnected => .disconnected

/-- The bridges are numbered in the order they were made. -/
inductive ConnectionState
  | connected (bridge : ℕ)
  | reconnecting
  | permanentlyFailed (r : TerminalReason)
  deriving DecidableEq

/-- Where a call of the broker stands: its wakeup is made, from the epoch on;
it waits for that wakeup; it has been given a bridge; it is a call of that
bridge; that failed and is to be reported; it has returned, through which
bridge if it got to one. -/
inductive CallProgress (V : Type)
  | looking (seen : ℕ)
  | parked (seen : ℕ)
  | holding (b : ℕ)
  | calling (b id : ℕ)
  | reporting (b : ℕ) (e : BridgeError)
  | returned (via : Option ℕ) (r : Except BrokerError V)

/-- A task of the client. -/
inductive Task (V : Type)
  | call (at_ : CallProgress V)
  /-- The state is written; to wake the waiters, and then to start the loop. -/
  | telling (reconnect : Bool)
  | spawning
  /-- The reconnect loop: about to dial for the `k`-th time, or pausing after it for so long. -/
  | attempt (k backoff : ℕ)
  | sleeping (k backoff pause : ℕ)
  /-- The daemon answered: it does not know the session, or it resumes it on a new bridge. -/
  | resurrected
  | resumed (b : ℕ)
  /-- The new bridge is in the state; the waiters are woken; `Reconnected` is out; the reader runs. -/
  | installed (b : ℕ)
  | told (b : ℕ)
  | announced (b : ℕ)
  | started (b : ℕ)
  /-- The disconnect watcher of a bridge: spawned, waiting for the signal, woken by it. -/
  | watcher (b : ℕ)
  | watching (b : ℕ)
  | woken (b : ℕ)
  | ended

/-- The signal of bridge `b` wakes a watcher that waits for it, and no other. -/
def Task.wake (b : ℕ) : Task V → Task V
  | .watching b' => if b' = b then .woken b' else .watching b'
  | t => t

/-- A client: its state, its bridges, its tasks, and what subscribers were
told, each beside the bridge it came from or is about. -/
structure Client (V P : Type) where
  state : ConnectionState
  epoch : ℕ
  made : ℕ
  bridges : ℕ → Option (Bridge V)
  tasks : List (Task V)
  log : List (ℕ × Notification P)

/-- What a dial ends with; after a failed one the loop pauses for so long. -/
inductive Handshake
  | failed (pause : ℕ)
  | isNew
  | resumed

/-- The pause is one the jitter allows. -/
def Handshake.paused (backoff : ℕ) : Handshake → Bool
  | .failed pause => decide (jittered backoff pause)
  | _ => true

/-- What happens: a call begins; a task runs on; a dial ends; a call's
deadline passes, or its caller drops it; something happens on a bridge. -/
inductive ClientAct (V : Type)
  | newCall
  | run (i : ℕ)
  | handshake (i : ℕ) (result : Handshake)
  | timeOut (i : ℕ)
  | abandon (i : ℕ)
  | bridge (b : ℕ) (a : BridgeAct V)

/-- What happens on a bridge without the client's tasks. -/
def BridgeAct.unbidden : BridgeAct V → Bool
  | .call => false
  | .abandon _ => false
  | .startReader => false
  | _ => true

def BridgeAct.isSignal : BridgeAct V → Bool
  | .signal => true
  | _ => false

namespace Client

/-- `initial_connect`, past its handshake: the reader runs, and the watcher is
spawned. -/
def connect : Client V P where
  state := .connected 0
  epoch := 0
  made := 1
  bridges := fun b => if b = 0 then some { Bridge.spawnWithoutReader with reader := .reading } else none
  tasks := [.watcher 0]
  log := []

def move (s : Client V P) (i : ℕ) (t : Task V) : Client V P := { s with tasks := s.tasks.set i t }

def spawn (s : Client V P) (t : Task V) : Client V P := { s with tasks := s.tasks ++ [t] }

def putBridge (s : Client V P) (b : ℕ) (br : Bridge V) : Client V P :=
  { s with bridges := Function.update s.bridges b (some br) }

/-- `enter_disconnect`, under the state's lock; the rest of it is a task. It
does not ask which bridge was lost. -/
def enterDisconnect (cfg : BrokerBuilder) (s : Client V P) : Client V P :=
  match s.state with
  | .connected _ =>
    match cfg.sessionName with
    | none => { s with state := .permanentlyFailed .sessionLost }.spawn (.telling false)
    | some _ => { s with state := .reconnecting }.spawn (.telling true)
  | _ => s

/-- `notify_waiters` of the state. -/
def notifyWaiters (s : Client V P) : Client V P := { s with epoch := s.epoch + 1 }

/-- What the state tells a call that looks. -/
def look (s : Client V P) (seen : ℕ) : CallProgress V :=
  match s.state with
  | .connected b => .holding b
  | .permanentlyFailed r => .returned none (.error r.intoError)
  | .reconnecting => .parked seen

/-- What a call makes of how its bridge ended it. -/
def settle (b : ℕ) : Except BridgeError V → CallProgress V
  | .ok v => .returned (some b) (.ok v)
  | .error e => if isTransportError e then .reporting b e else .returned (some b) (.error (mapBridgeError e))

variable (cfg : BrokerBuilder) (null : V)

/-- Task `i` runs on. -/
def advance (s : Client V P) (i : ℕ) : Task V → Option (Client V P)
  | .call (.looking seen) => some (s.move i (.call (s.look seen)))
  | .call (.parked seen) => if seen < s.epoch then some (s.move i (.call (.looking s.epoch))) else none
  | .call (.holding b) =>
    match s.bridges b with
    | none => none
    | some br =>
      match br.step null .call with
      | none => none
      | some br' => some ((s.putBridge b br').move i (.call (.calling b br.nextId)))
  | .call (.calling b id) =>
    match (s.bridges b).bind fun br => br.calls id with
    | some ⟨.done r, _⟩ => some (s.move i (.call (settle b r)))
    | _ => none
  | .call (.reporting b e) =>
    some ((s.enterDisconnect cfg).move i (.call (.returned (some b) (.error (mapBridgeError e)))))
  | .call (.returned _ _) => none
  | .telling reconnect => some (s.notifyWaiters.move i (if reconnect then .spawning else .ended))
  | .spawning => some (s.move i (.attempt 0 cfg.reconnectInitialBackoff))
  | .attempt k _ =>
    if k < cfg.reconnectMaxAttempts then none
    else some ({ s with state := .permanentlyFailed .disconnected }.move i (.telling false))
  | .sleeping k backoff _ => some (s.move i (.attempt (k + 1) (cfg.nextBackoff backoff)))
  | .resurrected => some ({ s with state := .permanentlyFailed .sessionLost }.move i (.telling false))
  | .resumed b => some ({ s with state := .connected b }.move i (.installed b))
  | .installed b => some (s.notifyWaiters.move i (.told b))
  | .told b => some ({ s with log := s.log ++ [(b, Notification.reconnected)] }.move i (.announced b))
  | .announced b =>
    match s.bridges b with
    | none => none
    | some br =>
      match br.step null .startReader with
      | none => none
      | some br' => some ((s.putBridge b br').move i (.started b))
  | .started b => some ((s.move i .ended).spawn (.watcher b))
  | .watcher b => some (s.move i (.watching b))
  | .watching _ => none
  | .woken _ => some ((s.enterDisconnect cfg).move i .ended)
  | .ended => none

/-- The `k`-th dial of a loop ends. -/
def dialled (s : Client V P) (i k backoff : ℕ) : Handshake → Client V P
  | .failed pause => s.move i (.sleeping k backoff pause)
  | .isNew => s.move i .resurrected
  | .resumed => { s.putBridge s.made .spawnWithoutReader with made := s.made + 1 }.move i (.resumed s.made)

/-- The caller of task `i` drops its call, and with it the call of the bridge. -/
def dropCall (s : Client V P) (i : ℕ) : CallProgress V → Client V P
  | .calling b id =>
    match s.bridges b with
    | none => s.move i .ended
    | some br => (s.putBridge b (br.drop id)).move i .ended
  | _ => s.move i .ended

/-- One step; `payload` reads what a trigger sent. -/
def step (payload : V → Option P) (s : Client V P) : ClientAct V → Option (Client V P)
  | .newCall => some (s.spawn (.call (.looking s.epoch)))
  | .run i => (s.tasks[i]?).bind (s.advance cfg null i)
  | .handshake i result =>
    match s.tasks[i]? with
    | some (.attempt k backoff) =>
      if k < cfg.reconnectMaxAttempts ∧ result.paused backoff then some (s.dialled i k backoff result) else none
    | _ => none
  | .timeOut i =>
    match s.tasks[i]? with
    | some (.call (.parked _)) => some (s.move i (.call (.returned none (.error .disconnected))))
    | _ => none
  | .abandon i =>
    match s.tasks[i]? with
    | some (.call p) => some (s.dropCall i p)
    | _ => none
  | .bridge b a =>
    if a.unbidden then
      match s.bridges b with
      | none => none
      | some br =>
        match br.step null a with
        | none => none
        | some br' =>
          some { s.putBridge b br' with
            log := s.log ++ (a.said payload).map fun n => (b, n)
            tasks := if a.isSignal then s.tasks.map (Task.wake b) else s.tasks }
    else none

end Client
end Sdk
end Logmon
