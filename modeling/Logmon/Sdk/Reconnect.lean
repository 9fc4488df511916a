/-
# Reconnecting

What holds of a client in every state it reaches, however its tasks
interleave. There is one reconnect under way exactly while the state says so,
hence a client that has failed stays failed (`failed_for_good`); the waiting
calls are told of every change (`no_lost_wakeup`); `Reconnected` comes before
anything the new connection brings (`reconnected_comes_first`); and a
connection that failed a call is not handed out again (`not_handed_out_again`).

Key definitions: `Client.Change`, `Client.Turn`, `Client.Told`, `Client.Phase`,
`Client.Gone`, `Client.Paced`.
Key theorems: `Client.change_of_step`, `failed_for_good`, `no_lost_wakeup`,
`reconnected_comes_first`, `not_handed_out_again`, `dial_bounded`.
-/
import Logmon.Sdk.Client

namespace Logmon
namespace Sdk

open Lib

variable {V P : Type}

namespace Client

variable {cfg : BrokerBuilder} {null : V} {payload : V → Option P} {s s' : Client V P} {i : ℕ}

/-! ### What a step can do -/

/-- Where the reader of a bridge stands. -/
def readerOf (s : Client V P) (b : ℕ) : Option ReaderStage := (s.bridges b).map fun br => br.reader

/-- How a call moves while the state stays as it is. -/
inductive CallMove (s : Client V P) : CallProgress V → CallProgress V → Prop
  | look (seen : ℕ) : CallMove s (.looking seen) (s.look seen)
  | wake (seen : ℕ) : CallMove s (.parked seen) (.looking s.epoch)
  | timeOut (seen : ℕ) : CallMove s (.parked seen) (.returned none (.error .disconnected))
  | begin (b id : ℕ) : CallMove s (.holding b) (.calling b id)
  | settle (b id : ℕ) (r : Except BridgeError V) : CallMove s (.calling b id) (settle b r)

/-- The moves of a task that concern no one else. -/
inductive Inner (cfg : BrokerBuilder) : Task V → Task V → Prop
  | begin : Inner cfg .spawning (.attempt 0 cfg.reconnectInitialBackoff)
  | pause (k backoff p : ℕ) : k < cfg.reconnectMaxAttempts → jittered backoff p →
      Inner cfg (.attempt k backoff) (.sleeping k backoff p)
  | forgotten (k backoff : ℕ) : Inner cfg (.attempt k backoff) .resurrected
  | again (k backoff p : ℕ) : Inner cfg (.sleeping k backoff p) (.attempt (k + 1) (cfg.nextBackoff backoff))
  | watch (b : ℕ) : Inner cfg (.watcher b) (.watching b)

/-- How a loop gives up. -/
inductive GivesUp (cfg : BrokerBuilder) : Task V → TerminalReason → Prop
  | attempts (k backoff : ℕ) : cfg.reconnectMaxAttempts ≤ k → GivesUp cfg (.attempt k backoff) .disconnected
  | resurrected : GivesUp cfg .resurrected .sessionLost

/-- All that a step can do. -/
inductive Change (cfg : BrokerBuilder) (null : V) (payload : V → Option P) (s : Client V P) : Client V P → Prop
  | newCall : Change cfg null payload s (s.spawn (.call (.looking s.epoch)))
  | call {i : ℕ} {p p' : CallProgress V} {bridges : ℕ → Option (Bridge V)} (hi : s.tasks[i]? = some (.call p))
      (hr : ∀ b, (bridges b).map (fun br => br.reader) = s.readerOf b) (hp : CallMove s p p') :
      Change cfg null payload s ({ s with bridges := bridges }.move i (.call p'))
  | drop {i : ℕ} {p : CallProgress V} {bridges : ℕ → Option (Bridge V)} (hi : s.tasks[i]? = some (.call p))
      (hr : ∀ b, (bridges b).map (fun br => br.reader) = s.readerOf b) :
      Change cfg null payload s ({ s with bridges := bridges }.move i .ended)
  | report {i b : ℕ} {e : BridgeError} (hi : s.tasks[i]? = some (.call (.reporting b e))) :
      Change cfg null payload s
        ((s.enterDisconnect cfg).move i (.call (.returned (some b) (.error (mapBridgeError e)))))
  | woken {i b : ℕ} (hi : s.tasks[i]? = some (.woken b)) : Change cfg null payload s ((s.enterDisconnect cfg).move i .ended)
  | telling {i : ℕ} {reconnect : Bool} (hi : s.tasks[i]? = some (.telling reconnect)) :
      Change cfg null payload s (s.notifyWaiters.move i (if reconnect then .spawning else .ended))
  | inner {i : ℕ} {t t' : Task V} (hi : s.tasks[i]? = some t) (h : Inner cfg t t') :
      Change cfg null payload s (s.move i t')
  | givesUp {i : ℕ} {t : Task V} {r : TerminalReason} (hi : s.tasks[i]? = some t) (h : GivesUp cfg t r) :
      Change cfg null payload s ({ s with state := .permanentlyFailed r }.move i (.telling false))
  | resumes {i k backoff : ℕ} (hi : s.tasks[i]? = some (.attempt k backoff)) :
      Change cfg null payload s
        ({ s.putBridge s.made .spawnWithoutReader with made := s.made + 1 }.move i (.resumed s.made))
  | installs {i b : ℕ} (hi : s.tasks[i]? = some (.resumed b)) :
      Change cfg null payload s ({ s with state := .connected b }.move i (.installed b))
  | tells {i b : ℕ} (hi : s.tasks[i]? = some (.installed b)) :
      Change cfg null payload s (s.notifyWaiters.move i (.told b))
  | announces {i b : ℕ} (hi : s.tasks[i]? = some (.told b)) :
      Change cfg null payload s ({ s with log := s.log ++ [(b, Notification.reconnected)] }.move i (.announced b))
  | starts {i b : ℕ} {br br' : Bridge V} (hi : s.tasks[i]? = some (.announced b)) (hb : s.bridges b = some br)
      (h : br.step null .startReader = some br') :
      Change cfg null payload s ((s.putBridge b br').move i (.started b))
  | watches {i b : ℕ} (hi : s.tasks[i]? = some (.started b)) :
      Change cfg null payload s ((s.move i .ended).spawn (.watcher b))
  | bridge {b : ℕ} {br br' : Bridge V} {a : BridgeAct V} (ha : a.unbidden = true) (hb : s.bridges b = some br)
      (h : br.step null a = some br') :
      Change cfg null payload s { s.putBridge b br' with
        log := s.log ++ (a.said payload).map fun n => (b, n)
        tasks := if a.isSignal then s.tasks.map (Task.wake b) else s.tasks }

theorem bridges_put (b : ℕ) (br : Bridge V) (b' : ℕ) :
    (s.putBridge b br).bridges b' = if b' = b then some br else s.bridges b' := Function.update_apply ..

theorem readerOf_put {b : ℕ} {br br' : Bridge V} (hb : s.bridges b = some br) (hr : br'.reader = br.reader) (b' : ℕ) :
    ((s.putBridge b br').bridges b').map (fun br => br.reader) = s.readerOf b' := by
  unfold readerOf
  rw [bridges_put]
  by_cases h : b' = b
  · rw [if_pos h, h, hb]
    exact congrArg some hr
  · rw [if_neg h]

/-- A call that begins leaves the reader as it stands. -/
theorem call_reader {br br' : Bridge V} (h : br.step null .call = some br') : br'.reader = br.reader := by
  simp only [Bridge.step] at h
  split at h
  · exact Option.some.inj h ▸ rfl
  · cases h

/-- A task that runs on. -/
theorem change_of_advance {t : Task V} (hi : s.tasks[i]? = some t) (h : s.advance cfg null i t = some s') :
    Change cfg null payload s s' := by
  have hsame : ∀ b, (s.bridges b).map (fun br => br.reader) = s.readerOf b := fun _ => rfl
  cases t with
  | call p =>
    cases p with
    | looking seen =>
      obtain rfl := Option.some.inj h
      exact .call hi hsame (.look seen)
    | parked seen =>
      simp only [advance] at h
      split at h
      · obtain rfl := Option.some.inj h
        exact .call hi hsame (.wake seen)
      · cases h
    | holding b =>
      simp only [advance] at h
      split at h
      · cases h
      · rename_i br hb
        split at h
        · cases h
        · rename_i br' hbr
          obtain rfl := Option.some.inj h
          exact .call hi (readerOf_put hb (call_reader hbr)) (.begin b br.nextId)
    | calling b id =>
      simp only [advance] at h
      split at h
      · rename_i r _ _
        obtain rfl := Option.some.inj h
        exact .call hi hsame (.settle b id r)
      · cases h
    | reporting b e =>
      obtain rfl := Option.some.inj h
      exact .report hi
    | returned via r => cases h
  | telling reconnect =>
    obtain rfl := Option.some.inj h
    exact .telling hi
  | spawning =>
    obtain rfl := Option.some.inj h
    exact .inner hi .begin
  | attempt k backoff =>
    simp only [advance] at h
    split at h
    · cases h
    · rename_i hk
      obtain rfl := Option.some.inj h
      exact .givesUp hi (.attempts k backoff (Nat.le_of_not_lt hk))
  | sleeping k backoff p =>
    obtain rfl := Option.some.inj h
    exact .inner hi (.again k backoff p)
  | resurrected =>
    obtain rfl := Option.some.inj h
    exact .givesUp hi .resurrected
  | resumed b =>
    obtain rfl := Option.some.inj h
    exact .installs hi
  | installed b =>
    obtain rfl := Option.some.inj h
    exact .tells hi
  | told b =>
    obtain rfl := Option.some.inj h
    exact .announces hi
  | announced b =>
    simp only [advance] at h
    split at h
    · cases h
    · rename_i br hb
      split at h
      · cases h
      · rename_i br' hbr
        obtain rfl := Option.some.inj h
        exact .starts hi hb hbr
  | started b =>
    obtain rfl := Option.some.inj h
    exact .watches hi
  | watcher b =>
    obtain rfl := Option.some.inj h
    exact .inner hi (.watch b)
  | watching b => cases h
  | woken b =>
    obtain rfl := Option.some.inj h
    exact .woken hi
  | ended => cases h

theorem change_of_step {a : ClientAct V} (h : s.step cfg null payload a = some s') : Change cfg null payload s s' := by
  cases a with
  | newCall =>
    obtain rfl := Option.some.inj h
    exact .newCall
  | run i =>
    obtain ⟨t, hi, ht⟩ := Option.bind_eq_some_iff.mp h
    exact change_of_advance hi ht
  | handshake i result =>
    simp only [step] at h
    split at h
    · rename_i k backoff hi
      split at h
      · rename_i hk
        obtain rfl := Option.some.inj h
        cases result with
        | failed p => exact .inner hi (.pause k backoff p hk.1 (of_decide_eq_true hk.2))
        | isNew => exact .inner hi (.forgotten k backoff)
        | resumed => exact .resumes hi
      · cases h
    · cases h
  | timeOut i =>
    simp only [step] at h
    split at h
    · rename_i seen hi
      obtain rfl := Option.some.inj h
      exact .call hi (fun _ => rfl) (.timeOut seen)
    · cases h
  | abandon i =>
    simp only [step] at h
    split at h
    · rename_i p hi
      obtain rfl := Option.some.inj h
      cases p with
      | calling b id =>
        simp only [dropCall]
        split
        · exact .drop hi fun _ => rfl
        · rename_i br hb
          exact .drop hi (readerOf_put hb rfl)
      | looking seen => exact .drop hi fun _ => rfl
      | parked seen => exact .drop hi fun _ => rfl
      | holding b => exact .drop hi fun _ => rfl
      | reporting b e => exact .drop hi fun _ => rfl
      | returned via r => exact .drop hi fun _ => rfl
    · cases h
  | bridge b a =>
    simp only [step] at h
    split at h
    · rename_i ha
      split at h
      · cases h
      · rename_i br hb
        split at h
        · cases h
        · rename_i br' hbr
          obtain rfl := Option.some.inj h
          exact .bridge ha hb hbr
    · cases h

/-- Entering a disconnect from a connection, and otherwise. -/
theorem enterDisconnect_cases (cfg : BrokerBuilder) (s : Client V P) : (∃ b, s.state = .connected b ∧
      (cfg.sessionName = none ∧ s.enterDisconnect cfg =
          { s with state := .permanentlyFailed .sessionLost, tasks := s.tasks ++ [.telling false] } ∨
        cfg.sessionName ≠ none ∧ s.enterDisconnect cfg =
          { s with state := .reconnecting, tasks := s.tasks ++ [.telling true] })) ∨
    ((∀ b, s.state ≠ .connected b) ∧ s.enterDisconnect cfg = s) := by
  unfold enterDisconnect
  cases hs : s.state with
  | connected b =>
    refine .inl ⟨b, rfl, ?_⟩
    cases hn : cfg.sessionName with
    | none => exact .inl ⟨rfl, rfl⟩
    | some name => exact .inr ⟨by simp, rfl⟩
  | reconnecting => exact .inr ⟨fun b hb => (by cases hb), rfl⟩
  | permanentlyFailed r => exact .inr ⟨fun b hb => (by cases hb), rfl⟩

/-- The task that enters a disconnect is still at its place. -/
theorem enterDisconnect_task {t : Task V} (hi : s.tasks[i]? = some t) : (s.enterDisconnect cfg).tasks[i]? = some t := by
  rcases enterDisconnect_cases cfg s with ⟨b, -, ⟨-, he⟩ | ⟨-, he⟩⟩ | ⟨-, he⟩
  · rw [he]
    exact (List.getElem?_append_left (List.getElem?_eq_some_iff.mp hi).1).trans hi
  · rw [he]
    exact (List.getElem?_append_left (List.getElem?_eq_some_iff.mp hi).1).trans hi
  · rw [he]
    exact hi

/-! ### One reconnect at a time -/

/-- The task holds the reconnect: from the report that starts it to its last
write of the state. -/
def reconnects : Task V → Bool
  | .telling reconnect => reconnect
  | .spawning => true
  | .attempt _ _ => true
  | .sleeping .. => true
  | .resurrected => true
  | .resumed _ => true
  | _ => false

/-- A reconnect is under way exactly while the state says so, and one at a
time; an anonymous session has none. -/
structure Turn (cfg : BrokerBuilder) (s : Client V P) : Prop where
  reconnecting : s.state = .reconnecting → s.tasks.countP reconnects = 1
  settled : s.state ≠ .reconnecting → s.tasks.countP reconnects = 0
  anonymous : cfg.sessionName = none → s.state ≠ .reconnecting

/-- A write of one task that keeps the state and whether the task reconnects. -/
theorem Turn.keep (h : s.Turn cfg) {t t' : Task V} (hi : s.tasks[i]? = some t) (htasks : s'.tasks = s.tasks.set i t')
    (hstate : s'.state = s.state) (ht : reconnects t' = reconnects t) : s'.Turn cfg := by
  have hcount := countP_set_add (p := reconnects) (y := t') hi
  rw [ht] at hcount
  have heq : s'.tasks.countP reconnects = s.tasks.countP reconnects := by
    rw [htasks]
    omega
  exact ⟨fun hr => heq ▸ h.reconnecting (hstate ▸ hr), fun hr => heq ▸ h.settled (hstate ▸ hr), fun hn => hstate ▸ h.anonymous hn⟩

/-- A task that reconnects does so in the state that says so. -/
theorem Turn.reconnecting_of (h : s.Turn cfg) {t : Task V} (hi : s.tasks[i]? = some t) (ht : reconnects t = true) :
    s.state = .reconnecting := by
  by_contra hne
  have hpos : 0 < s.tasks.countP reconnects := List.countP_pos_iff.mpr ⟨t, List.mem_of_getElem? hi, ht⟩
  have := h.settled hne
  omega

/-- The reconnect ends with the task that holds it. -/
theorem Turn.close (h : s.Turn cfg) {t t' : Task V} (hi : s.tasks[i]? = some t) (htasks : s'.tasks = s.tasks.set i t')
    (hstate : s'.state ≠ .reconnecting) (ht : reconnects t = true) (ht' : reconnects t' = false) : s'.Turn cfg := by
  have hcount := countP_set_add (p := reconnects) (y := t') hi
  have hone := h.reconnecting (h.reconnecting_of hi ht)
  rw [ht, ht', hone] at hcount
  simp only [Bool.toNat_true, Bool.toNat_false] at hcount
  refine ⟨fun hr => absurd hr hstate, fun _ => ?_, fun _ => hstate⟩
  rw [htasks]
  omega

theorem Turn.enter (h : s.Turn cfg) : (s.enterDisconnect cfg).Turn cfg := by
  rcases enterDisconnect_cases cfg s with ⟨b, hb, hcase⟩ | ⟨-, he⟩
  · have hzero := h.settled (by rw [hb]; simp)
    rcases hcase with ⟨hn, he⟩ | ⟨hn, he⟩
    · rw [he]
      refine ⟨fun hr => (by cases hr), fun _ => ?_, fun _ hr => (by cases hr)⟩
      rw [List.countP_append, hzero]
      rfl
    · rw [he]
      refine ⟨fun _ => ?_, fun hr => absurd rfl hr, fun hn' => absurd hn' hn⟩
      rw [List.countP_append, hzero]
      rfl
  · rw [he]
    exact h

theorem countP_wake (b : ℕ) (ts : List (Task V)) : (ts.map (Task.wake b)).countP reconnects = ts.countP reconnects := by
  rw [List.countP_map]
  refine List.countP_congr fun t _ => ?_
  cases t with
  | watching b' =>
    by_cases hb : b' = b <;> simp [Task.wake, hb, reconnects]
  | _ => rfl

theorem Turn.change (h : s.Turn cfg) (hc : Change cfg null payload s s') : s'.Turn cfg := by
  cases hc with
  | newCall =>
    have heq : (s.spawn (.call (.looking s.epoch))).tasks.countP reconnects = s.tasks.countP reconnects := by
      rw [spawn, List.countP_append]
      rfl
    exact ⟨fun hr => heq ▸ h.reconnecting hr, fun hr => heq ▸ h.settled hr, h.anonymous⟩
  | call hi => exact h.keep hi rfl rfl rfl
  | drop hi => exact h.keep hi rfl rfl rfl
  | report hi => exact h.enter.keep (enterDisconnect_task hi) rfl rfl rfl
  | woken hi => exact h.enter.keep (enterDisconnect_task hi) rfl rfl rfl
  | @telling i reconnect hi => cases reconnect <;> exact h.keep hi rfl rfl rfl
  | inner hi hin => cases hin <;> exact h.keep hi rfl rfl rfl
  | givesUp hi hg => cases hg <;> exact h.close hi rfl (by simp [move]) rfl rfl
  | resumes hi => exact h.keep hi rfl rfl rfl
  | installs hi => exact h.close hi rfl (by simp [move]) rfl rfl
  | tells hi => exact h.keep hi rfl rfl rfl
  | announces hi => exact h.keep hi rfl rfl rfl
  | starts hi => exact h.keep hi rfl rfl rfl
  | @watches i b hi =>
    have hk : (s.move i .ended).Turn cfg := h.keep hi rfl rfl rfl
    have heq : ((s.move i .ended).spawn (.watcher b)).tasks.countP reconnects = (s.move i .ended).tasks.countP reconnects := by
      rw [spawn, List.countP_append]
      rfl
    exact ⟨fun hr => heq ▸ hk.reconnecting hr, fun hr => heq ▸ hk.settled hr, hk.anonymous⟩
  | @bridge b br br' a ha hb hs =>
    have heq : (if a.isSignal then s.tasks.map (Task.wake b) else s.tasks).countP reconnects = s.tasks.countP reconnects := by
      split
      · exact countP_wake b s.tasks
      · rfl
    exact ⟨fun hr => heq.trans (h.reconnecting hr), fun hr => heq.trans (h.settled hr), h.anonymous⟩

/-! ### Who is told of a change -/

/-- The epoch from which a call's wakeup counts. -/
def seen? : Task V → Option ℕ
  | .call (.looking seen) => some seen
  | .call (.parked seen) => some seen
  | _ => none

/-- The task has written the state and is about to wake the waiters. -/
def owes : Task V → Bool
  | .telling _ => true
  | .installed _ => true
  | _ => false

/-- A call that waits and has not been woken waits for a reconnect, or a
wakeup is owed. -/
structure Told (s : Client V P) : Prop where
  past : ∀ t ∈ s.tasks, ∀ k, seen? t = some k → k ≤ s.epoch
  owed : .call (.parked s.epoch) ∈ s.tasks → s.state = .reconnecting ∨ ∃ t ∈ s.tasks, owes t = true

/-- A write of one task that keeps the state and the epoch. -/
theorem Told.keep (h : s.Told) {t t' : Task V} (hi : s.tasks[i]? = some t) (htasks : s'.tasks = s.tasks.set i t')
    (hstate : s'.state = s.state) (hepoch : s'.epoch = s.epoch) (hseen : ∀ k, seen? t' = some k → k ≤ s.epoch)
    (hpark : ∀ k, t' = .call (.parked k) → s.state = .reconnecting) (howes : owes t = true → owes t' = true) :
    s'.Told := by
  refine ⟨fun u hu k hk => ?_, fun hp => ?_⟩
  · rw [htasks] at hu
    rw [hepoch]
    rcases List.mem_or_eq_of_mem_set hu with hu | rfl
    · exact h.past u hu k hk
    · exact hseen k hk
  · rw [htasks, hepoch] at hp
    rw [hstate, htasks]
    rcases List.mem_or_eq_of_mem_set hp with hp | hp
    · refine (h.owed hp).imp_right fun he => (somewhere_set hi).mpr ?_
      exact ((somewhere_iff hi).mp he).imp_left howes
    · exact .inl (hpark _ hp.symm)

/-- The waiters are woken. -/
theorem Told.tell (h : s.Told) {t' : Task V} (htasks : s'.tasks = s.tasks.set i t') (hepoch : s'.epoch = s.epoch + 1)
    (hseen : seen? t' = none) : s'.Told := by
  refine ⟨fun u hu k hk => ?_, fun hp => ?_⟩
  · rw [htasks] at hu
    rw [hepoch]
    rcases List.mem_or_eq_of_mem_set hu with hu | rfl
    · exact Nat.le_succ_of_le (h.past u hu k hk)
    · rw [hseen] at hk
      cases hk
  · rw [htasks, hepoch] at hp
    rcases List.mem_or_eq_of_mem_set hp with hp | rfl
    · exact absurd (h.past _ hp _ rfl) (Nat.not_succ_le_self _)
    · cases hseen

/-- The state is written, and the task that wrote it owes the wakeup. -/
theorem Told.write (h : s.Told) {t t' : Task V} (hi : s.tasks[i]? = some t) (htasks : s'.tasks = s.tasks.set i t')
    (hepoch : s'.epoch = s.epoch) (hseen : seen? t' = none) (howes : owes t' = true) : s'.Told := by
  refine ⟨fun u hu k hk => ?_, fun _ => .inr ⟨t', ?_, howes⟩⟩
  · rw [htasks] at hu
    rw [hepoch]
    rcases List.mem_or_eq_of_mem_set hu with hu | rfl
    · exact h.past u hu k hk
    · rw [hseen] at hk
      cases hk
  · rw [htasks]
    exact List.mem_of_getElem? (getElem?_set_self' hi)

/-- A task comes that does not wait. -/
theorem Told.spawn (h : s.Told) {t : Task V} (htasks : s'.tasks = s.tasks ++ [t]) (hepoch : s'.epoch = s.epoch)
    (hseen : ∀ k, seen? t = some k → k ≤ s.epoch) (hpark : ∀ k, t ≠ .call (.parked k))
    (hstate : s'.state = s.state ∨ owes t = true) : s'.Told := by
  refine ⟨fun u hu k hk => ?_, fun hp => ?_⟩
  · rw [htasks] at hu
    rw [hepoch]
    rcases List.mem_append.mp hu with hu | hu
    · exact h.past u hu k hk
    · obtain rfl := List.mem_singleton.mp hu
      exact hseen k hk
  · rw [htasks, hepoch] at hp
    rw [htasks]
    rcases hstate with hstate | howes
    · rcases List.mem_append.mp hp with hp | hp
      · rw [hstate]
        exact (h.owed hp).imp_right fun ⟨u, hu, ho⟩ => ⟨u, List.mem_append_left _ hu, ho⟩
      · exact absurd (List.mem_singleton.mp hp).symm (hpark _)
    · exact .inr ⟨t, List.mem_append_right _ List.mem_cons_self, howes⟩

theorem Told.enter (h : s.Told) : (s.enterDisconnect cfg).Told := by
  rcases enterDisconnect_cases cfg s with ⟨b, -, ⟨-, he⟩ | ⟨-, he⟩⟩ | ⟨-, he⟩
  · rw [he]
    exact h.spawn rfl rfl (fun k hk => (by cases hk)) (fun k hk => (by cases hk)) (.inr rfl)
  · rw [he]
    exact h.spawn rfl rfl (fun k hk => (by cases hk)) (fun k hk => (by cases hk)) (.inr rfl)
  · rw [he]
    exact h

theorem seen?_wake (b : ℕ) (t : Task V) : seen? (t.wake b) = seen? t := by
  cases t with
  | watching b' => by_cases hb : b' = b <;> simp [Task.wake, hb, seen?]
  | _ => rfl

theorem owes_wake (b : ℕ) (t : Task V) : owes (t.wake b) = owes t := by
  cases t with
  | watching b' => by_cases hb : b' = b <;> simp [Task.wake, hb, owes]
  | _ => rfl

theorem wake_call {b : ℕ} {t : Task V} {p : CallProgress V} (h : t.wake b = .call p) : t = .call p := by
  cases t with
  | watching b' => by_cases hb : b' = b <;> simp [Task.wake, hb] at h
  | _ => exact h

/-- A call that looks waits on only while a reconnect is under way. -/
theorem look_waits {seen k : ℕ} (h : seen? (.call (s.look seen)) = some k) : k = seen ∧ s.state = .reconnecting := by
  unfold look at h
  cases hs : s.state with
  | reconnecting =>
    rw [hs] at h
    exact ⟨(Option.some.inj h).symm, rfl⟩
  | connected b =>
    rw [hs] at h
    cases h
  | permanentlyFailed r =>
    rw [hs] at h
    cases h

theorem settle_quiet (b : ℕ) (r : Except BridgeError V) : seen? (.call (settle b r)) = none := by
  cases r with
  | ok v => rfl
  | error e => cases e <;> rfl

theorem Told.change (h : s.Told) (hc : Change cfg null payload s s') : s'.Told := by
  have hno : ∀ k, (none : Option ℕ) = some k → k ≤ s.epoch := fun k hk => (by cases hk)
  cases hc with
  | newCall =>
    exact h.spawn rfl rfl (fun k hk => (Option.some.inj hk).ge) (fun k hk => (by cases hk)) (.inl rfl)
  | @call i p p' bridges hi hr hp =>
    have hpast := fun k => h.past _ (List.mem_of_getElem? hi) k
    cases hp with
    | look seen =>
      refine h.keep hi rfl rfl rfl (fun k hk => ?_) (fun k hk => ?_) fun ho => (by cases ho)
      · obtain ⟨rfl, -⟩ := look_waits hk
        exact hpast k rfl
      · exact (look_waits (congrArg seen? hk)).2
    | wake seen =>
      exact h.keep hi rfl rfl rfl (fun k hk => (Option.some.inj hk).ge) (fun k hk => (by cases hk)) fun ho => (by cases ho)
    | timeOut seen => exact h.keep hi rfl rfl rfl hno (fun k hk => (by cases hk)) fun ho => (by cases ho)
    | begin b id => exact h.keep hi rfl rfl rfl hno (fun k hk => (by cases hk)) fun ho => (by cases ho)
    | settle b id r =>
      refine h.keep hi rfl rfl rfl (fun k hk => ?_) (fun k hk => ?_) fun ho => (by cases ho)
      · exact hno k ((settle_quiet b r).symm.trans hk)
      · exact absurd ((settle_quiet b r).symm.trans (congrArg seen? hk)) (by simp [seen?])
  | drop hi => exact h.keep hi rfl rfl rfl hno (fun k hk => (by cases hk)) fun ho => (by cases ho)
  | report hi =>
    exact h.enter.keep (enterDisconnect_task hi) rfl rfl rfl (fun k hk => (by cases hk)) (fun k hk => (by cases hk))
      fun ho => (by cases ho)
  | woken hi =>
    exact h.enter.keep (enterDisconnect_task hi) rfl rfl rfl (fun k hk => (by cases hk)) (fun k hk => (by cases hk))
      fun ho => (by cases ho)
  | @telling i reconnect hi => cases reconnect <;> exact h.tell rfl rfl rfl
  | inner hi hin =>
    cases hin <;> exact h.keep hi rfl rfl rfl hno (fun k hk => (by cases hk)) fun ho => (by cases ho)
  | givesUp hi => exact h.write hi rfl rfl rfl rfl
  | resumes hi => exact h.keep hi rfl rfl rfl hno (fun k hk => (by cases hk)) fun ho => (by cases ho)
  | installs hi => exact h.write hi rfl rfl rfl rfl
  | tells hi => exact h.tell rfl rfl rfl
  | announces hi => exact h.keep hi rfl rfl rfl hno (fun k hk => (by cases hk)) fun ho => (by cases ho)
  | starts hi => exact h.keep hi rfl rfl rfl hno (fun k hk => (by cases hk)) fun ho => (by cases ho)
  | @watches i b hi =>
    have hk : (s.move i .ended).Told :=
      h.keep hi rfl rfl rfl hno (fun k hk => (by cases hk)) fun ho => (by cases ho)
    exact hk.spawn rfl rfl (fun k hk => (by cases hk)) (fun k hk => (by cases hk)) (.inl rfl)
  | @bridge b br br' a ha hb hs =>
    by_cases hsig : a.isSignal = true
    · simp only [hsig, if_true]
      refine ⟨fun u hu k hk => ?_, fun hp => ?_⟩
      · obtain ⟨t, ht, rfl⟩ := List.mem_map.mp hu
        exact h.past t ht k ((seen?_wake b t).symm.trans hk)
      · obtain ⟨t, ht, htw⟩ := List.mem_map.mp hp
        rw [wake_call htw] at ht
        refine (h.owed ht).imp_right fun ⟨u, hu, ho⟩ => ⟨u.wake b, List.mem_map_of_mem hu, ?_⟩
        exact (owes_wake b u).trans ho
    · simp only [hsig]
      exact ⟨h.past, h.owed⟩

/-! ### What subscribers are told of a bridge -/

/-- What was broadcast from a bridge or about it, in order. -/
def events (s : Client V P) (b : ℕ) : List (Notification P) := (s.log.filter fun x => x.1 = b).map Prod.snd

/-- The task readies the bridge, and has not announced it. -/
def readies (b : ℕ) : Task V → Bool
  | .resumed b' => b' = b
  | .installed b' => b' = b
  | .told b' => b' = b
  | _ => false

/-- The task has announced the bridge, and its reader does not run. -/
def announces (b : ℕ) : Task V → Bool
  | .announced b' => b' = b
  | _ => false

/-- The life of a bridge, as its reader and its subscribers see it: not made;
readied by one task, silent; announced; and running, its own notifications
after the announcement. The first is made with the client and not announced. -/
inductive Phase (s : Client V P) (b : ℕ) : Prop
  | unmade (pos : b ≠ 0) (made : s.made ≤ b) (early : s.tasks.countP (readies b) = 0) (late : s.tasks.countP (announces b) = 0)
      (reader : s.readerOf b = none) (said : s.events b = [])
  | readied (pos : b ≠ 0) (made : b < s.made) (early : s.tasks.countP (readies b) = 1) (late : s.tasks.countP (announces b) = 0)
      (reader : s.readerOf b = some .unstarted) (said : s.events b = [])
  | announced (pos : b ≠ 0) (made : b < s.made) (early : s.tasks.countP (readies b) = 0) (late : s.tasks.countP (announces b) = 1)
      (reader : s.readerOf b = some .unstarted) (said : s.events b = [.reconnected])
  | running (made : b < s.made) (early : s.tasks.countP (readies b) = 0) (late : s.tasks.countP (announces b) = 0)
      (reader : ∃ r, s.readerOf b = some r ∧ r ≠ .unstarted)
      (said : ∃ ps : List P, s.events b = (if b = 0 then [] else [.reconnected]) ++ ps.map .triggerFired)

/-- What leaves a bridge alone. -/
theorem Phase.congr {b : ℕ} (h : s.Phase b) (hmade : s'.made = s.made)
    (hearly : s'.tasks.countP (readies b) = s.tasks.countP (readies b))
    (hlate : s'.tasks.countP (announces b) = s.tasks.countP (announces b)) (hreader : s'.readerOf b = s.readerOf b)
    (hsaid : s'.events b = s.events b) : s'.Phase b := by
  cases h with
  | unmade pos made early late reader said =>
    exact .unmade pos (hmade ▸ made) (hearly.trans early) (hlate.trans late) (hreader.trans reader) (hsaid.trans said)
  | readied pos made early late reader said =>
    exact .readied pos (hmade ▸ made) (hearly.trans early) (hlate.trans late) (hreader.trans reader) (hsaid.trans said)
  | announced pos made early late reader said =>
    exact .announced pos (hmade ▸ made) (hearly.trans early) (hlate.trans late) (hreader.trans reader) (hsaid.trans said)
  | running made early late reader said =>
    exact .running (hmade ▸ made) (hearly.trans early) (hlate.trans late) (hreader ▸ reader) (hsaid ▸ said)

/-- A write of one task that readies and announces what the task did. -/
theorem Phase.keep {b : ℕ} (h : s.Phase b) {t t' : Task V} (hi : s.tasks[i]? = some t)
    (htasks : s'.tasks = s.tasks.set i t') (hmade : s'.made = s.made) (hreader : s'.readerOf b = s.readerOf b)
    (hlog : s'.log = s.log) (hearly : readies b t' = readies b t) (hlate : announces b t' = announces b t) : s'.Phase b := by
  have h₁ := countP_set_add (p := readies b) (y := t') hi
  have h₂ := countP_set_add (p := announces b) (y := t') hi
  rw [hearly] at h₁
  rw [hlate] at h₂
  refine h.congr hmade ?_ ?_ hreader ?_
  · rw [htasks]
    omega
  · rw [htasks]
    omega
  · unfold events
    rw [hlog]

/-- A task comes that is about no new bridge. -/
theorem Phase.spawn {b : ℕ} (h : s.Phase b) {t : Task V} (htasks : s'.tasks = s.tasks ++ [t]) (hmade : s'.made = s.made)
    (hreader : s'.readerOf b = s.readerOf b) (hlog : s'.log = s.log) (hearly : readies b t = false)
    (hlate : announces b t = false) : s'.Phase b := by
  refine h.congr hmade ?_ ?_ hreader ?_
  · rw [htasks, List.countP_append, List.countP_singleton, hearly]
    rfl
  · rw [htasks, List.countP_append, List.countP_singleton, hlate]
    rfl
  · unfold events
    rw [hlog]

theorem Phase.enter {b : ℕ} (h : s.Phase b) : (s.enterDisconnect cfg).Phase b := by
  rcases enterDisconnect_cases cfg s with ⟨_, -, ⟨-, he⟩ | ⟨-, he⟩⟩ | ⟨-, he⟩
  · rw [he]
    exact h.spawn rfl rfl rfl rfl rfl rfl
  · rw [he]
    exact h.spawn rfl rfl rfl rfl rfl rfl
  · rw [he]
    exact h

theorem events_append (b b' : ℕ) (out : List (Notification P)) (t : List (Task V)) (bridges : ℕ → Option (Bridge V)) :
    ({ s with bridges := bridges, log := s.log ++ out.map fun n => (b', n), tasks := t } : Client V P).events b =
      if b' = b then s.events b ++ out else s.events b := by
  unfold events
  simp only [List.filter_append, List.map_append]
  by_cases hb : b' = b
  · have hfilter : (out.map fun n => (b', n)).filter (fun x => x.1 = b) = out.map fun n => (b', n) :=
      List.filter_eq_self.mpr fun x hx => by
        obtain ⟨n, -, rfl⟩ := List.mem_map.mp hx
        exact decide_eq_true hb
    rw [if_pos hb, hfilter, List.map_map]
    congr 1
    exact List.map_id' out
  · have hfilter : (out.map fun n => (b', n)).filter (fun x => x.1 = b) = [] :=
      List.filter_eq_nil_iff.mpr fun x hx => by
        obtain ⟨n, -, rfl⟩ := List.mem_map.mp hx
        simpa using hb
    rw [if_neg hb, hfilter]
    exact List.append_nil _

/-- What a bridge says is what its triggers fired. -/
theorem said_eq (a : BridgeAct V) : ∃ ps : List P, a.said payload = ps.map .triggerFired := by
  unfold BridgeAct.said
  split
  · rename_i notif
    unfold notificationFromWire
    split
    · cases payload notif.params with
      | none => exact ⟨[], rfl⟩
      | some p => exact ⟨[p], rfl⟩
    · exact ⟨[], rfl⟩
  · exact ⟨[], rfl⟩

/-- A bridge whose reader does not run says nothing, and nothing unbidden
starts it. -/
theorem unstarted_step {br br' : Bridge V} {a : BridgeAct V} (ha : a.unbidden = true) (h : br.step null a = some br')
    (hr : br.reader = .unstarted) : br'.reader = .unstarted ∧ a.said payload = [] := by
  cases a with
  | call => cases ha
  | abandon id => cases ha
  | startReader => cases ha
  | register id =>
    simp only [Bridge.step] at h
    split at h
    · split at h <;> exact ⟨Option.some.inj h ▸ hr, rfl⟩
    · cases h
  | lockWriter id =>
    simp only [Bridge.step] at h
    split at h
    · split at h
      · exact ⟨Option.some.inj h ▸ hr, rfl⟩
      · cases h
    · cases h
  | write id failed =>
    simp only [Bridge.step] at h
    split at h
    · cases failed <;> exact ⟨Option.some.inj h ▸ hr, rfl⟩
    · cases h
  | take id =>
    simp only [Bridge.step] at h
    split at h
    · exact ⟨Option.some.inj h ▸ hr, rfl⟩
    · exact ⟨Option.some.inj h ▸ hr, rfl⟩
    · cases h
  | read msg =>
    cases msg <;> simp [Bridge.step, hr] at h
  | stop => simp [Bridge.step, hr] at h
  | close => simp [Bridge.step, hr] at h
  | signal => simp [Bridge.step, hr] at h

theorem started_step {br br' : Bridge V} {a : BridgeAct V} (h : br.step null a = some br') (hr : br.reader ≠ .unstarted) :
    br'.reader ≠ .unstarted := by
  cases a with
  | call =>
    simp only [Bridge.step] at h
    split at h
    · exact Option.some.inj h ▸ hr
    · cases h
  | abandon id => exact Option.some.inj h ▸ hr
  | register id =>
    simp only [Bridge.step] at h
    split at h
    · split at h <;> exact Option.some.inj h ▸ hr
    · cases h
  | lockWriter id =>
    simp only [Bridge.step] at h
    split at h
    · split at h
      · exact Option.some.inj h ▸ hr
      · cases h
    · cases h
  | write id failed =>
    simp only [Bridge.step] at h
    split at h
    · cases failed <;> exact Option.some.inj h ▸ hr
    · cases h
  | take id =>
    simp only [Bridge.step] at h
    split at h
    · exact Option.some.inj h ▸ hr
    · exact Option.some.inj h ▸ hr
    · cases h
  | read msg =>
    cases msg with
    | response resp =>
      simp only [Bridge.step] at h
      split at h
      · exact Option.some.inj h ▸ (Bridge.route_reader br resp).symm ▸ hr
      · cases h
    | notification notif =>
      simp only [Bridge.step] at h
      split at h
      · exact Option.some.inj h ▸ hr
      · cases h
  | startReader =>
    simp only [Bridge.step] at h
    split at h
    · exact Option.some.inj h ▸ (by simp)
    · cases h
  | stop =>
    simp only [Bridge.step] at h
    split at h
    · exact Option.some.inj h ▸ (by simp)
    · cases h
  | close =>
    simp only [Bridge.step] at h
    split at h
    · exact Option.some.inj h ▸ (by simp)
    · cases h
  | signal =>
    simp only [Bridge.step] at h
    split at h
    · exact Option.some.inj h ▸ (by simp)
    · cases h

theorem countP_map_wake {q : Task V → Bool} (hq : ∀ b t, q (Task.wake b t) = q t) (b : ℕ) (ts : List (Task V)) :
    (ts.map (Task.wake b)).countP q = ts.countP q := by
  rw [List.countP_map]
  exact List.countP_congr fun t _ => by simp [hq b t]

theorem readies_wake (c b : ℕ) (t : Task V) : readies c (t.wake b) = readies c t := by
  cases t with
  | watching b' => by_cases hb : b' = b <;> simp [Task.wake, hb, readies]
  | _ => rfl

theorem announces_wake (c b : ℕ) (t : Task V) : announces c (t.wake b) = announces c t := by
  cases t with
  | watching b' => by_cases hb : b' = b <;> simp [Task.wake, hb, announces]
  | _ => rfl

/-- A task that readies or announces the bridge fixes its phase. -/
theorem Phase.of_task {b : ℕ} (h : s.Phase b) {t : Task V} (hi : s.tasks[i]? = some t) :
    (readies b t = true → b ≠ 0 ∧ b < s.made ∧ s.tasks.countP (readies b) = 1 ∧ s.tasks.countP (announces b) = 0 ∧
      s.readerOf b = some .unstarted ∧ s.events b = []) ∧
    (announces b t = true → b ≠ 0 ∧ b < s.made ∧ s.tasks.countP (readies b) = 0 ∧ s.tasks.countP (announces b) = 1 ∧
      s.readerOf b = some .unstarted ∧ s.events b = [.reconnected]) := by
  have hm := List.mem_of_getElem? hi
  refine ⟨fun ht => ?_, fun ht => ?_⟩
  · have hpos : 0 < s.tasks.countP (readies b) := List.countP_pos_iff.mpr ⟨t, hm, ht⟩
    cases h with
    | unmade pos made early late reader said => omega
    | readied pos made early late reader said => exact ⟨pos, made, early, late, reader, said⟩
    | announced pos made early late reader said => omega
    | running made early late reader said => omega
  · have hpos : 0 < s.tasks.countP (announces b) := List.countP_pos_iff.mpr ⟨t, hm, ht⟩
    cases h with
    | unmade pos made early late reader said => omega
    | readied pos made early late reader said => omega
    | announced pos made early late reader said => exact ⟨pos, made, early, late, reader, said⟩
    | running made early late reader said => omega

/-- A bridge is made, and a task readies it. -/
theorem Phase.resumes {b k backoff : ℕ} (h : s.Phase b) (hi : s.tasks[i]? = some (.attempt k backoff)) :
    ({ s.putBridge s.made .spawnWithoutReader with made := s.made + 1 }.move i (.resumed s.made)).Phase b := by
  have h₁ := countP_set_add (p := readies b) (y := .resumed s.made) hi
  have h₂ := countP_set_add (p := announces b) (y := .resumed s.made) hi
  have hreader : ({ s.putBridge s.made .spawnWithoutReader with made := s.made + 1 }.move i (.resumed s.made)).readerOf b =
      if b = s.made then some .unstarted else s.readerOf b := by
    change (Function.update s.bridges s.made _ b).map _ = _
    rw [Function.update_apply]
    split <;> rfl
  simp only [announces, Bool.toNat_false, Nat.add_zero] at h₂
  by_cases hb : b = s.made
  · subst hb
    simp only [readies, decide_true, Bool.toNat_true, Bool.toNat_false, Nat.add_zero] at h₁
    rw [if_pos rfl] at hreader
    cases h with
    | unmade pos made early late reader said =>
      exact .readied pos (Nat.lt_succ_self _) (by rw [move]; exact h₁.trans (by rw [early])) (h₂.trans late) hreader said
    | readied pos made => exact absurd made (lt_irrefl _)
    | announced pos made => exact absurd made (lt_irrefl _)
    | running made => exact absurd made (lt_irrefl _)
  · have hne : decide (s.made = b) = false := decide_eq_false fun he => hb he.symm
    simp only [readies, hne, Bool.toNat_false, Nat.add_zero] at h₁
    rw [if_neg hb] at hreader
    cases h with
    | unmade pos made early late reader said =>
      exact .unmade pos (Nat.lt_of_le_of_ne made fun he => hb he.symm) (h₁.trans early) (h₂.trans late)
        (hreader.trans reader) said
    | readied pos made early late reader said =>
      exact .readied pos (Nat.lt_succ_of_lt made) (h₁.trans early) (h₂.trans late) (hreader.trans reader) said
    | announced pos made early late reader said =>
      exact .announced pos (Nat.lt_succ_of_lt made) (h₁.trans early) (h₂.trans late) (hreader.trans reader) said
    | running made early late reader said =>
      exact .running (Nat.lt_succ_of_lt made) (h₁.trans early) (h₂.trans late) (hreader ▸ reader) said

/-- The bridge's task announces it. -/
theorem Phase.announces {b c : ℕ} (h : s.Phase b) (hi : s.tasks[i]? = some (.told c)) :
    ({ s with log := s.log ++ [(c, Notification.reconnected)] }.move i (.announced c)).Phase b := by
  have h₁ := countP_set_add (p := readies b) (y := .announced c) hi
  have h₂ := countP_set_add (p := Client.announces b) (y := .announced c) hi
  have hsaid := events_append (s := s) b c [Notification.reconnected] (s.tasks.set i (.announced c)) s.bridges
  have hof := (h.of_task hi).1
  by_cases hb : c = b
  · subst hb
    obtain ⟨pos, made, early, late, reader, said⟩ := hof (decide_eq_true rfl)
    simp only [readies, Client.announces, decide_true, Bool.toNat_true, Bool.toNat_false, Nat.add_zero] at h₁ h₂
    rw [if_pos rfl, said] at hsaid
    exact .announced pos made (by rw [early] at h₁; exact Nat.succ.inj h₁) (h₂.trans (by rw [late])) reader hsaid
  · have hne : decide (c = b) = false := decide_eq_false hb
    simp only [readies, Client.announces, hne, Bool.toNat_false, Nat.add_zero] at h₁ h₂
    rw [if_neg hb] at hsaid
    exact h.congr rfl h₁ h₂ rfl hsaid

/-- The reader of an announced bridge starts. -/
theorem Phase.starts {b c : ℕ} (h : s.Phase b) {br br' : Bridge V}
    (hi : s.tasks[i]? = some (.announced c)) (hs : br.step null .startReader = some br') :
    ((s.putBridge c br').move i (.started c)).Phase b := by
  have h₁ := countP_set_add (p := readies b) (y := .started c) hi
  have h₂ := countP_set_add (p := Client.announces b) (y := .started c) hi
  have hof := (h.of_task hi).2
  simp only [readies, Bool.toNat_false, Nat.add_zero] at h₁
  by_cases hc : c = b
  · subst hc
    obtain ⟨pos, made, early, late, reader, said⟩ := hof (decide_eq_true rfl)
    simp only [Client.announces, decide_true, Bool.toNat_true, Bool.toNat_false, Nat.add_zero] at h₂
    have hr : br'.reader = .reading := by
      simp only [Bridge.step] at hs
      split at hs
      · exact Option.some.inj hs ▸ rfl
      · cases hs
    refine .running made (h₁.trans early) (by rw [late] at h₂; exact Nat.succ.inj h₂) ⟨.reading, ?_, by simp⟩ ⟨[], ?_⟩
    · change ((s.putBridge c br').bridges c).map _ = _
      rw [bridges_put, if_pos rfl, Option.map_some, hr]
    · rw [if_neg pos]
      exact said
  · have hne : decide (c = b) = false := decide_eq_false hc
    simp only [Client.announces, hne, Bool.toNat_false, Nat.add_zero] at h₂
    refine h.congr rfl h₁ h₂ ?_ rfl
    change ((s.putBridge c br').bridges b).map _ = _
    rw [bridges_put, if_neg fun he => hc he.symm]
    rfl

/-- Something unbidden happens on a bridge. -/
theorem Phase.bridge {b c : ℕ} (h : s.Phase b) {br br' : Bridge V} {a : BridgeAct V} (ha : a.unbidden = true)
    (hb : s.bridges c = some br) (hs : br.step null a = some br') :
    ({ s.putBridge c br' with
      log := s.log ++ (a.said payload).map fun n => (c, n)
      tasks := if a.isSignal then s.tasks.map (Task.wake c) else s.tasks } : Client V P).Phase b := by
  have hcount : ∀ {q : Task V → Bool}, (∀ b t, q (Task.wake b t) = q t) →
      (if a.isSignal then s.tasks.map (Task.wake c) else s.tasks).countP q = s.tasks.countP q := fun hq => by
    split
    · exact countP_map_wake hq c s.tasks
    · rfl
  have h₁ := hcount (readies_wake b)
  have h₂ := hcount (announces_wake b)
  have hsaid := events_append (s := s) b c (a.said payload) (if a.isSignal then s.tasks.map (Task.wake c) else s.tasks)
    (Function.update s.bridges c (some br'))
  by_cases hc : c = b
  · subst hc
    rw [if_pos rfl] at hsaid
    have hreader : ∀ r, s.readerOf c = some r → br.reader = r := fun r hr => by
      unfold readerOf at hr
      rw [hb] at hr
      exact Option.some.inj hr
    have hreader' : ({ s.putBridge c br' with
        log := s.log ++ (a.said payload).map fun n => (c, n)
        tasks := if a.isSignal then s.tasks.map (Task.wake c) else s.tasks } : Client V P).readerOf c =
        some br'.reader := by
      change ((s.putBridge c br').bridges c).map _ = _
      rw [bridges_put, if_pos rfl]
      rfl
    cases h with
    | unmade pos made early late reader said =>
      unfold readerOf at reader
      rw [hb] at reader
      cases reader
    | readied pos made early late reader said =>
      have hun : br'.reader = .unstarted ∧ a.said payload = [] := unstarted_step ha hs (hreader _ reader)
      exact .readied pos made (h₁.trans early) (h₂.trans late) (hreader'.trans (congrArg some hun.1))
        (hsaid.trans (by rw [hun.2, said]; rfl))
    | announced pos made early late reader said =>
      have hun : br'.reader = .unstarted ∧ a.said payload = [] := unstarted_step ha hs (hreader _ reader)
      exact .announced pos made (h₁.trans early) (h₂.trans late) (hreader'.trans (congrArg some hun.1))
        (hsaid.trans (by rw [hun.2, said]; rfl))
    | running made early late reader said =>
      obtain ⟨r, hr, hne⟩ := reader
      obtain ⟨ps, hps⟩ := said
      have hsays : ∃ qs : List P, a.said payload = qs.map .triggerFired := said_eq a
      obtain ⟨qs, hqs⟩ := hsays
      refine .running made (h₁.trans early) (h₂.trans late)
        ⟨br'.reader, hreader', started_step hs (by rw [hreader r hr]; exact hne)⟩ ⟨ps ++ qs, ?_⟩
      rw [List.map_append, ← List.append_assoc, ← hps, ← hqs]
      exact hsaid
  · rw [if_neg hc] at hsaid
    refine h.congr rfl h₁ h₂ ?_ hsaid
    change ((s.putBridge c br').bridges b).map _ = _
    rw [bridges_put, if_neg fun he => hc he.symm]
    rfl

theorem Phase.change {b : ℕ} (h : s.Phase b) (hc : Change cfg null payload s s') : s'.Phase b := by
  cases hc with
  | newCall => exact h.spawn rfl rfl rfl rfl rfl rfl
  | call hi hr => exact h.keep hi rfl rfl (hr b) rfl rfl rfl
  | drop hi hr => exact h.keep hi rfl rfl (hr b) rfl rfl rfl
  | report hi => exact h.enter.keep (enterDisconnect_task hi) rfl rfl rfl rfl rfl rfl
  | woken hi => exact h.enter.keep (enterDisconnect_task hi) rfl rfl rfl rfl rfl rfl
  | @telling i reconnect hi => cases reconnect <;> exact h.keep hi rfl rfl rfl rfl rfl rfl
  | inner hi hin => cases hin <;> exact h.keep hi rfl rfl rfl rfl rfl rfl
  | givesUp hi hg => cases hg <;> exact h.keep hi rfl rfl rfl rfl rfl rfl
  | resumes hi => exact h.resumes hi
  | installs hi => exact h.keep hi rfl rfl rfl rfl rfl rfl
  | tells hi => exact h.keep hi rfl rfl rfl rfl rfl rfl
  | announces hi => exact h.announces hi
  | starts hi hb hs => exact h.starts hi hs
  | @watches i c hi =>
    have hk : (s.move i .ended).Phase b := h.keep hi rfl rfl rfl rfl rfl rfl
    exact hk.spawn rfl rfl rfl rfl rfl rfl
  | bridge ha hb hs => exact h.bridge ha hb hs

/-! ### Bridges that failed -/

/-- The bridge a call was given, if it got to one. -/
def via? : Task V → Option ℕ
  | .call (.holding b) => some b
  | .call (.calling b _) => some b
  | .call (.reporting b _) => some b
  | .call (.returned via _) => via
  | _ => none

/-- A call has returned because its connection was lost. -/
def Lost (b : ℕ) (t : Task V) : Prop :=
  ∃ e, isTransportError e = true ∧ t = .call (.returned (some b) (.error (mapBridgeError e)))

/-- A bridge that is being readied has never been in the state, and no call
was given it; one that failed a call is in the state no more. -/
structure Gone (s : Client V P) : Prop where
  held : ∀ b, s.state = .connected b → b < s.made
  given : ∀ t ∈ s.tasks, ∀ b, via? t = some b → b < s.made
  fresh : ∀ b, .resumed b ∈ s.tasks → b < s.made ∧ s.state ≠ .connected b ∧ ∀ t ∈ s.tasks, via? t ≠ some b
  lost : ∀ b t, t ∈ s.tasks → Lost b t → s.state ≠ .connected b

theorem not_lost_of_via {b : ℕ} {t : Task V} (h : via? t = none) : ¬ Lost b t := by
  rintro ⟨e, -, rfl⟩
  cases h

/-- A write of one task that keeps the state: the task is given no bridge but
the one it had or the state's, and readies none. -/
theorem Gone.keep (h : s.Gone) {t t' : Task V} (hi : s.tasks[i]? = some t) (htasks : s'.tasks = s.tasks.set i t')
    (hstate : s'.state = s.state) (hmade : s'.made = s.made)
    (hvia : ∀ b, via? t' = some b → via? t = some b ∨ s.state = .connected b) (hfresh : ∀ b, t' ≠ .resumed b)
    (hlost : ∀ b, Lost b t' → s.state ≠ .connected b) : s'.Gone := by
  have hin : t ∈ s.tasks := List.mem_of_getElem? hi
  refine ⟨fun b hb => ?_, fun u hu b hb => ?_, fun b hb => ?_, fun b u hu hl => ?_⟩
  · rw [hstate] at hb
    rw [hmade]
    exact h.held b hb
  · rw [htasks] at hu
    rw [hmade]
    rcases List.mem_or_eq_of_mem_set hu with hu | rfl
    · exact h.given u hu b hb
    · exact (hvia b hb).elim (h.given t hin b) (h.held b)
  · rw [htasks] at hb
    rw [hmade, hstate, htasks]
    rcases List.mem_or_eq_of_mem_set hb with hb | hb
    · obtain ⟨hlt, hne, hnone⟩ := h.fresh b hb
      refine ⟨hlt, hne, forall_set hnone fun hv => ?_⟩
      exact (hvia b hv).elim (hnone t hin) hne
    · exact absurd hb.symm (hfresh b)
  · rw [htasks] at hu
    rw [hstate]
    rcases List.mem_or_eq_of_mem_set hu with hu | rfl
    · exact h.lost b u hu hl
    · exact hlost b hl

/-- The state leaves the connection, or stays without one. -/
theorem Gone.leave (h : s.Gone) (htasks : s'.tasks = s.tasks) (hmade : s'.made = s.made)
    (hstate : ∀ b, s'.state ≠ .connected b) : s'.Gone := by
  refine ⟨fun b hb => absurd hb (hstate b), ?_, ?_, fun b _ _ _ => hstate b⟩
  · rw [htasks, hmade]
    exact h.given
  · rw [htasks, hmade]
    exact fun b hb => ⟨(h.fresh b hb).1, hstate b, (h.fresh b hb).2.2⟩

/-- A task comes that is given no bridge and readies none. -/
theorem Gone.spawn (h : s.Gone) {t : Task V} (htasks : s'.tasks = s.tasks ++ [t]) (hstate : s'.state = s.state)
    (hmade : s'.made = s.made) (hvia : via? t = none) (hfresh : ∀ b, t ≠ .resumed b) : s'.Gone := by
  have hcases : ∀ u ∈ s'.tasks, u ∈ s.tasks ∨ u = t := fun u hu => by
    rw [htasks] at hu
    exact (List.mem_append.mp hu).imp_right List.mem_singleton.mp
  refine ⟨fun b hb => hmade ▸ h.held b (hstate ▸ hb), fun u hu b hb => ?_, fun b hb => ?_, fun b u hu hl => ?_⟩
  · rcases hcases u hu with hu | rfl
    · exact hmade ▸ h.given u hu b hb
    · rw [hvia] at hb
      cases hb
  · rcases hcases _ hb with hb | hb
    · obtain ⟨hlt, hne, hnone⟩ := h.fresh b hb
      refine ⟨hmade ▸ hlt, hstate ▸ hne, fun u hu => ?_⟩
      rcases hcases u hu with hu | rfl
      · exact hnone u hu
      · rw [hvia]
        simp
    · exact absurd hb.symm (hfresh b)
  · rcases hcases u hu with hu | rfl
    · exact hstate ▸ h.lost b u hu hl
    · exact absurd hl (not_lost_of_via hvia)

theorem Gone.enter (h : s.Gone) : (s.enterDisconnect cfg).Gone ∧ ∀ b, (s.enterDisconnect cfg).state ≠ .connected b := by
  rcases enterDisconnect_cases cfg s with ⟨_, -, ⟨-, he⟩ | ⟨-, he⟩⟩ | ⟨hne, he⟩
  · have hleft : ({ s with state := .permanentlyFailed .sessionLost } : Client V P).Gone :=
      h.leave rfl rfl fun b hb => (by cases hb)
    rw [he]
    exact ⟨hleft.spawn rfl rfl rfl rfl fun b hb => (by cases hb), fun b hb => (by cases hb)⟩
  · have hleft : ({ s with state := .reconnecting } : Client V P).Gone := h.leave rfl rfl fun b hb => (by cases hb)
    rw [he]
    exact ⟨hleft.spawn rfl rfl rfl rfl fun b hb => (by cases hb), fun b hb => (by cases hb)⟩
  · rw [he]
    exact ⟨h, hne⟩

theorem enterDisconnect_made : (s.enterDisconnect cfg).made = s.made := by
  rcases enterDisconnect_cases cfg s with ⟨_, -, ⟨-, he⟩ | ⟨-, he⟩⟩ | ⟨-, he⟩ <;> rw [he]

theorem settle_not_lost (b b' : ℕ) (r : Except BridgeError V) : ¬ Lost b' (.call (settle b r) : Task V) := by
  rintro ⟨e, he, hs⟩
  cases r with
  | ok v => cases hs
  | error e' => cases e' <;> cases e <;> simp [isTransportError, settle, mapBridgeError] at he hs

theorem settle_via (b : ℕ) (r : Except BridgeError V) : via? (.call (settle b r) : Task V) = some b := by
  cases r with
  | ok v => rfl
  | error e => cases e <;> rfl

theorem via?_wake (b : ℕ) (t : Task V) : via? (t.wake b) = via? t := by
  cases t with
  | watching b' => by_cases hb : b' = b <;> simp [Task.wake, hb, via?]
  | _ => rfl

theorem wake_resumed {b c : ℕ} {t : Task V} (h : t.wake b = .resumed c) : t = .resumed c := by
  cases t with
  | watching b' => by_cases hb : b' = b <;> simp [Task.wake, hb] at h
  | _ => exact h

theorem Gone.resumes (h : s.Gone) (i : ℕ) :
    ({ s.putBridge s.made .spawnWithoutReader with made := s.made + 1 }.move i (.resumed s.made)).Gone := by
  refine ⟨fun b hb => Nat.lt_succ_of_lt (h.held b hb), fun u hu b hb => ?_, fun b hb => ?_, fun b u hu hl => ?_⟩
  · rcases List.mem_or_eq_of_mem_set hu with hu | rfl
    · exact Nat.lt_succ_of_lt (h.given u hu b hb)
    · cases hb
  · rcases List.mem_or_eq_of_mem_set hb with hb | hb
    · obtain ⟨hlt, hne, hnone⟩ := h.fresh b hb
      exact ⟨Nat.lt_succ_of_lt hlt, hne, forall_set hnone (by simp [via?])⟩
    · obtain rfl := Task.resumed.inj hb
      refine ⟨Nat.lt_succ_self _, fun hs => lt_irrefl _ (h.held _ hs), forall_set (fun u hu hv => ?_) (by simp [via?])⟩
      exact lt_irrefl _ (h.given u hu _ hv)
  · rcases List.mem_or_eq_of_mem_set hu with hu | rfl
    · exact h.lost b u hu hl
    · exact absurd hl (not_lost_of_via rfl)

/-- The bridge of a resumed session enters the state. -/
theorem Gone.installs (h : s.Gone) (hphase : ∀ b, s.Phase b) {b : ℕ} (hi : s.tasks[i]? = some (.resumed b)) :
    ({ s with state := .connected b }.move i (.installed b)).Gone := by
  obtain ⟨hlt, -, hnone⟩ := h.fresh b (List.mem_of_getElem? hi)
  have hone := ((hphase b).of_task hi).1 (by simp [readies])
  refine ⟨fun c hc => ?_, fun u hu c hc => ?_, fun c hc => ?_, fun c u hu hl => ?_⟩
  · obtain rfl := ConnectionState.connected.inj hc
    exact hlt
  · rcases List.mem_or_eq_of_mem_set hu with hu | rfl
    · exact h.given u hu c hc
    · cases hc
  · have hother : Elsewhere s.tasks i fun t => t = .resumed c := by
      have hsome : ∃ t ∈ s.tasks.set i (.installed b), t = .resumed c := ⟨_, hc, rfl⟩
      exact ((somewhere_set hi).mp hsome).resolve_left fun he => (by cases he)
    obtain ⟨j, t, hj, ht, rfl⟩ := hother
    obtain ⟨hltc, -, hnonec⟩ := h.fresh c (List.mem_of_getElem? ht)
    refine ⟨hltc, fun he => ?_, forall_set hnonec (by simp [via?])⟩
    obtain rfl := ConnectionState.connected.inj he
    have := two_le_countP (p := readies b) hj ht hi (by simp [readies]) (by simp [readies])
    omega
  · rcases List.mem_or_eq_of_mem_set hu with hu | rfl
    · rintro he
      obtain rfl := ConnectionState.connected.inj he
      obtain ⟨e, -, rfl⟩ := hl
      exact hnone _ hu rfl
    · exact absurd hl (not_lost_of_via rfl)

theorem Gone.change (h : s.Gone) (hphase : ∀ b, s.Phase b) (hc : Change cfg null payload s s') : s'.Gone := by
  cases hc with
  | newCall => exact h.spawn rfl rfl rfl rfl fun b hb => (by cases hb)
  | @call i p p' bridges hi hr hp =>
    cases hp with
    | look seen =>
      refine h.keep hi rfl rfl rfl (fun b hb => .inr ?_) (fun b hb => (by cases hb)) fun b hl => ?_
      · unfold look at hb
        split at hb
        · rename_i c hs
          exact hs.trans (congrArg _ (Option.some.inj hb))
        · cases hb
        · cases hb
      · obtain ⟨e, -, hl⟩ := hl
        unfold look at hl
        split at hl <;> cases hl
    | wake seen =>
      exact h.keep hi rfl rfl rfl (fun b hb => (by cases hb)) (fun b hb => (by cases hb)) fun b hl => absurd hl (not_lost_of_via rfl)
    | timeOut seen =>
      exact h.keep hi rfl rfl rfl (fun b hb => (by cases hb)) (fun b hb => (by cases hb)) fun b hl => absurd hl (not_lost_of_via rfl)
    | begin b id =>
      refine h.keep hi rfl rfl rfl (fun c hc => .inl hc) (fun b hb => (by cases hb)) fun c hl => ?_
      obtain ⟨e, -, hl⟩ := hl
      cases hl
    | settle b id r =>
      exact h.keep hi rfl rfl rfl (fun c hc => .inl ((settle_via b r).symm.trans hc)) (fun b hb => (by cases hb)) fun c hl =>
        absurd hl (settle_not_lost b c r)
  | drop hi =>
    exact h.keep hi rfl rfl rfl (fun b hb => (by cases hb)) (fun b hb => (by cases hb)) fun b hl => absurd hl (not_lost_of_via rfl)
  | report hi =>
    exact h.enter.1.keep (enterDisconnect_task hi) rfl rfl rfl (fun b hb => .inl hb) (fun b hb => (by cases hb)) fun b _ =>
      h.enter.2 b
  | woken hi =>
    exact h.enter.1.keep (enterDisconnect_task hi) rfl rfl rfl (fun b hb => (by cases hb)) (fun b hb => (by cases hb)) fun b _ =>
      h.enter.2 b
  | @telling i reconnect hi =>
    cases reconnect <;>
      exact h.keep hi rfl rfl rfl (fun b hb => (by cases hb)) (fun b hb => (by cases hb)) fun b hl => absurd hl (not_lost_of_via rfl)
  | inner hi hin =>
    cases hin <;>
      exact h.keep hi rfl rfl rfl (fun b hb => (by cases hb)) (fun b hb => (by cases hb)) fun b hl => absurd hl (not_lost_of_via rfl)
  | @givesUp i t r hi _ =>
    have hleft : ({ s with state := .permanentlyFailed r } : Client V P).Gone := h.leave rfl rfl fun b hb => (by cases hb)
    exact hleft.keep hi rfl rfl rfl (fun b hb => (by cases hb)) (fun b hb => (by cases hb)) fun b hl => absurd hl (not_lost_of_via rfl)
  | @resumes i => exact h.resumes i
  | installs hi => exact h.installs hphase hi
  | tells hi =>
    exact h.keep hi rfl rfl rfl (fun b hb => (by cases hb)) (fun b hb => (by cases hb)) fun b hl => absurd hl (not_lost_of_via rfl)
  | announces hi =>
    exact h.keep hi rfl rfl rfl (fun b hb => (by cases hb)) (fun b hb => (by cases hb)) fun b hl => absurd hl (not_lost_of_via rfl)
  | starts hi =>
    exact h.keep hi rfl rfl rfl (fun b hb => (by cases hb)) (fun b hb => (by cases hb)) fun b hl => absurd hl (not_lost_of_via rfl)
  | @watches i c hi =>
    have hk : (s.move i .ended).Gone :=
      h.keep hi rfl rfl rfl (fun b hb => (by cases hb)) (fun b hb => (by cases hb)) fun b hl => absurd hl (not_lost_of_via rfl)
    exact hk.spawn rfl rfl rfl rfl fun b hb => (by cases hb)
  | @bridge c br br' a ha hb hs =>
    have hmem : ∀ t ∈ (if a.isSignal then s.tasks.map (Task.wake c) else s.tasks), ∃ u ∈ s.tasks, t = u ∨ t = u.wake c :=
      fun t ht => by
        split at ht
        · obtain ⟨u, hu, rfl⟩ := List.mem_map.mp ht
          exact ⟨u, hu, .inr rfl⟩
        · exact ⟨t, ht, .inl rfl⟩
    have hvia : ∀ t ∈ (if a.isSignal then s.tasks.map (Task.wake c) else s.tasks), ∃ u ∈ s.tasks, via? t = via? u :=
      fun t ht => by
        obtain ⟨u, hu, rfl | rfl⟩ := hmem t ht
        · exact ⟨t, hu, rfl⟩
        · exact ⟨u, hu, via?_wake c u⟩
    refine ⟨h.held, fun t ht b hv => ?_, fun b hb => ?_, fun b t ht hl => ?_⟩
    · obtain ⟨u, hu, he⟩ := hvia t ht
      exact h.given u hu b (he.symm.trans hv)
    · have hin : .resumed b ∈ s.tasks := by
        obtain ⟨u, hu, he | he⟩ := hmem _ hb
        · exact he ▸ hu
        · exact wake_resumed he.symm ▸ hu
      obtain ⟨hlt, hne, hnone⟩ := h.fresh b hin
      refine ⟨hlt, hne, fun t ht => ?_⟩
      obtain ⟨u, hu, he⟩ := hvia t ht
      exact he ▸ hnone u hu
    · obtain ⟨e, he, rfl⟩ := hl
      obtain ⟨u, hu, hu' | hu'⟩ := hmem _ ht
      · exact h.lost b _ (hu' ▸ hu) ⟨e, he, rfl⟩
      · exact h.lost b _ (wake_call hu'.symm ▸ hu) ⟨e, he, rfl⟩

/-! ### The pauses of a loop -/

/-- A loop has failed as often as it says, within its attempts, its backoff has
grown as often, and it pauses for that with a jitter. -/
structure Paced (cfg : BrokerBuilder) (s : Client V P) : Prop where
  attempt : ∀ k backoff, .attempt k backoff ∈ s.tasks →
    k ≤ cfg.reconnectMaxAttempts ∧ backoff = (cfg.nextBackoff)^[k] cfg.reconnectInitialBackoff
  sleeping : ∀ k backoff p, .sleeping k backoff p ∈ s.tasks →
    k < cfg.reconnectMaxAttempts ∧ backoff = (cfg.nextBackoff)^[k] cfg.reconnectInitialBackoff ∧ jittered backoff p

/-- The task is a loop between its dials. -/
def dials : Task V → Bool
  | .attempt _ _ => true
  | .sleeping .. => true
  | _ => false

/-- Only a loop's own moves can unsettle its pace. -/
theorem Paced.of_mem (h : s.Paced cfg) (hmem : ∀ t ∈ s'.tasks, dials t = true → t ∈ s.tasks) : s'.Paced cfg :=
  ⟨fun k backoff hm => h.attempt k backoff (hmem _ hm rfl), fun k backoff p hm => h.sleeping k backoff p (hmem _ hm rfl)⟩

theorem mem_of_set {t u : Task V} (hu : u ∈ s.tasks.set i t) (ht : dials t = false) (hd : dials u = true) : u ∈ s.tasks := by
  rcases List.mem_or_eq_of_mem_set hu with hu | rfl
  · exact hu
  · rw [ht] at hd
    cases hd

theorem enterDisconnect_mem {t : Task V} (ht : t ∈ (s.enterDisconnect cfg).tasks) (hd : dials t = true) : t ∈ s.tasks := by
  rcases enterDisconnect_cases cfg s with ⟨_, -, ⟨-, he⟩ | ⟨-, he⟩⟩ | ⟨-, he⟩
  · rw [he] at ht
    rcases List.mem_append.mp ht with ht | ht
    · exact ht
    · rw [List.mem_singleton.mp ht] at hd
      cases hd
  · rw [he] at ht
    rcases List.mem_append.mp ht with ht | ht
    · exact ht
    · rw [List.mem_singleton.mp ht] at hd
      cases hd
  · rwa [he] at ht

theorem mem_of_spawn {t u : Task V} (hu : u ∈ s.tasks ++ [t]) (ht : dials t = false) (hd : dials u = true) : u ∈ s.tasks := by
  rcases List.mem_append.mp hu with hu | hu
  · exact hu
  · rw [List.mem_singleton.mp hu, ht] at hd
    cases hd

theorem wake_dials {b : ℕ} {t : Task V} (h : dials (t.wake b) = true) : t.wake b = t := by
  cases t with
  | watching b' => by_cases hb : b' = b <;> simp [Task.wake, hb, dials] at h
  | _ => rfl

/-- A loop's own moves keep its pace. -/
theorem Paced.inner (h : s.Paced cfg) {t t' : Task V} (hi : s.tasks[i]? = some t) (hin : Inner cfg t t') :
    (s.move i t').Paced cfg := by
  have hm := List.mem_of_getElem? hi
  cases hin with
  | begin =>
    refine ⟨fun k backoff hu => ?_, fun k backoff p hu => ?_⟩
    · rcases List.mem_or_eq_of_mem_set hu with hu | hu
      · exact h.attempt k backoff hu
      · obtain ⟨rfl, rfl⟩ := Task.attempt.inj hu
        exact ⟨Nat.zero_le _, rfl⟩
    · rcases List.mem_or_eq_of_mem_set hu with hu | hu
      · exact h.sleeping k backoff p hu
      · cases hu
  | pause k₀ backoff₀ p₀ hk hp =>
    refine ⟨fun k backoff hu => ?_, fun k backoff p hu => ?_⟩
    · rcases List.mem_or_eq_of_mem_set hu with hu | hu
      · exact h.attempt k backoff hu
      · cases hu
    · rcases List.mem_or_eq_of_mem_set hu with hu | hu
      · exact h.sleeping k backoff p hu
      · obtain ⟨rfl, rfl, rfl⟩ := Task.sleeping.inj hu
        exact ⟨hk, (h.attempt k backoff hm).2, hp⟩
  | again k₀ backoff₀ p₀ =>
    refine ⟨fun k backoff hu => ?_, fun k backoff p hu => ?_⟩
    · rcases List.mem_or_eq_of_mem_set hu with hu | hu
      · exact h.attempt k backoff hu
      · obtain ⟨rfl, rfl⟩ := Task.attempt.inj hu
        obtain ⟨hlt, hb, -⟩ := h.sleeping k₀ backoff₀ p₀ hm
        rw [Function.iterate_succ_apply', ← hb]
        exact ⟨hlt, rfl⟩
    · rcases List.mem_or_eq_of_mem_set hu with hu | hu
      · exact h.sleeping k backoff p hu
      · cases hu
  | forgotten k₀ backoff₀ => exact h.of_mem fun u hu hd => mem_of_set hu rfl hd
  | watch b => exact h.of_mem fun u hu hd => mem_of_set hu rfl hd

theorem Paced.change (h : s.Paced cfg) (hc : Change cfg null payload s s') : s'.Paced cfg := by
  cases hc with
  | newCall => exact h.of_mem fun u hu hd => mem_of_spawn hu rfl hd
  | call => exact h.of_mem fun u hu hd => mem_of_set hu rfl hd
  | drop => exact h.of_mem fun u hu hd => mem_of_set hu rfl hd
  | report => exact h.of_mem fun u hu hd => enterDisconnect_mem (mem_of_set hu rfl hd) hd
  | woken => exact h.of_mem fun u hu hd => enterDisconnect_mem (mem_of_set hu rfl hd) hd
  | @telling i reconnect => cases reconnect <;> exact h.of_mem fun u hu hd => mem_of_set hu rfl hd
  | inner hi hin => exact h.inner hi hin
  | givesUp => exact h.of_mem fun u hu hd => mem_of_set hu rfl hd
  | resumes => exact h.of_mem fun u hu hd => mem_of_set hu rfl hd
  | installs => exact h.of_mem fun u hu hd => mem_of_set hu rfl hd
  | tells => exact h.of_mem fun u hu hd => mem_of_set hu rfl hd
  | announces => exact h.of_mem fun u hu hd => mem_of_set hu rfl hd
  | starts => exact h.of_mem fun u hu hd => mem_of_set hu rfl hd
  | @watches i b =>
    have hk : (s.move i .ended).Paced cfg := h.of_mem fun u hu hd => mem_of_set hu rfl hd
    exact hk.of_mem fun u hu hd => mem_of_spawn hu rfl hd
  | @bridge b br br' a ha hb hs =>
    refine h.of_mem fun u hu hd => ?_
    simp only at hu
    split at hu
    · obtain ⟨t, ht, rfl⟩ := List.mem_map.mp hu
      rwa [wake_dials hd]
    · exact hu

/-! ### Runs -/

/-- What every state keeps. -/
structure Inv (cfg : BrokerBuilder) (s : Client V P) : Prop where
  turn : s.Turn cfg
  told : s.Told
  phase : ∀ b, s.Phase b
  gone : s.Gone
  paced : s.Paced cfg
  /-- An anonymous session is never dialled for. -/
  anonymous : cfg.sessionName = none → s.made = 1

theorem inv_connect : (connect : Client V P).Inv cfg := by
  refine ⟨⟨fun hr => ?_, fun _ => rfl, fun _ hr => ?_⟩, ⟨fun t ht k hk => ?_, fun hp => ?_⟩, fun b => ?_,
    ⟨fun b hb => ?_, fun t ht b hb => ?_, fun b hb => ?_, fun b t ht hl => ?_⟩, ⟨fun k backoff hm => ?_, fun k backoff p hm => ?_⟩,
    fun _ => rfl⟩
  · cases hr
  · cases hr
  · rw [List.mem_singleton.mp ht] at hk
    cases hk
  · cases List.mem_singleton.mp hp
  · by_cases hb : b = 0
    · subst hb
      exact .running Nat.one_pos rfl rfl ⟨.reading, rfl, by simp⟩ ⟨[], rfl⟩
    · refine .unmade hb (Nat.one_le_iff_ne_zero.mpr hb) rfl rfl ?_ rfl
      simp [readerOf, connect, hb]
  · obtain rfl := ConnectionState.connected.inj hb
    exact Nat.one_pos
  · rw [List.mem_singleton.mp ht] at hb
    cases hb
  · cases List.mem_singleton.mp hb
  · rw [List.mem_singleton.mp ht] at hl
    exact absurd hl (not_lost_of_via rfl)
  · cases List.mem_singleton.mp hm
  · cases List.mem_singleton.mp hm

/-- Only a dial of a loop makes a bridge. -/
theorem made_of_change (h : s.Turn cfg) (hc : Change cfg null payload s s') (hs : s.state ≠ .reconnecting) :
    s'.made = s.made := by
  cases hc with
  | resumes hi => exact absurd (h.reconnecting_of hi rfl) hs
  | report => exact enterDisconnect_made
  | woken => exact enterDisconnect_made
  | _ => rfl

theorem Inv.step (h : s.Inv cfg) {a : ClientAct V} (hs : s.step cfg null payload a = some s') : s'.Inv cfg := by
  have hc := change_of_step hs
  refine ⟨h.turn.change hc, h.told.change hc, fun b => (h.phase b).change hc, h.gone.change h.phase hc, h.paced.change hc,
    fun hn => ?_⟩
  rw [made_of_change h.turn hc (h.turn.anonymous hn)]
  exact h.anonymous hn

theorem inv_of_reach (h : Reach (step cfg null payload) (fun _ _ => True) (connect : Client V P) s) : s.Inv cfg :=
  h.invariant inv_connect fun _ _ _ hi _ hs => hi.step hs

/-- **One reconnect at a time.** In every state one task at most reconnects,
and one does exactly while the state says so; a client of an anonymous session
is never reconnecting and has no bridge but its first. -/
theorem one_reconnect_at_a_time (h : Reach (step cfg null payload) (fun _ _ => True) (connect : Client V P) s) :
    s.tasks.countP reconnects ≤ 1 ∧ (s.state = .reconnecting ↔ ∃ t ∈ s.tasks, reconnects t = true) ∧
      (cfg.sessionName = none → s.state ≠ .reconnecting ∧ s.made = 1) := by
  have hi := inv_of_reach h
  refine ⟨?_, ⟨fun hr => ?_, fun ht => ?_⟩, fun hn => ⟨hi.turn.anonymous hn, hi.anonymous hn⟩⟩
  · by_cases hr : s.state = .reconnecting
    · exact (hi.turn.reconnecting hr).le
    · rw [hi.turn.settled hr]
      exact Nat.zero_le _
  · refine List.countP_pos_iff.mp ?_
    rw [hi.turn.reconnecting hr]
    exact Nat.one_pos
  · obtain ⟨t, ht, hrec⟩ := ht
    obtain ⟨j, hj⟩ := List.mem_iff_getElem?.mp ht
    exact hi.turn.reconnecting_of hj hrec

theorem failed_step (h : s.Turn cfg) {r : TerminalReason} (hr : s.state = .permanentlyFailed r)
    (hc : Change cfg null payload s s') : s'.state = .permanentlyFailed r := by
  have hne : s.state ≠ .reconnecting := by
    rw [hr]
    simp
  have hstay : s.enterDisconnect cfg = s := by
    unfold enterDisconnect
    rw [hr]
  cases hc with
  | givesUp hi hg => cases hg <;> exact absurd (h.reconnecting_of hi rfl) hne
  | installs hi => exact absurd (h.reconnecting_of hi rfl) hne
  | report =>
    rw [hstay]
    exact hr
  | woken =>
    rw [hstay]
    exact hr
  | _ => exact hr

/-- No loop is left to dial in a client that has failed. -/
theorem Turn.no_dial (h : s.Turn cfg) {r : TerminalReason} (hr : s.state = .permanentlyFailed r) (i : ℕ)
    (result : Handshake) : s.step cfg null payload (.handshake i result) = none := by
  simp only [step]
  split
  · rename_i k backoff hi
    have hreconnecting := h.reconnecting_of hi rfl
    rw [hr] at hreconnecting
    cases hreconnecting
  · rfl

/-- **A client that has failed stays failed,** for the same reason; it dials no
more, and makes no further connection. -/
theorem failed_for_good (h : Reach (step cfg null payload) (fun _ _ => True) (connect : Client V P) s) {r : TerminalReason}
    (hr : s.state = .permanentlyFailed r) (acts : List (ClientAct V)) (hrun : runActs (step cfg null payload) s acts = some s') :
    s'.state = .permanentlyFailed r ∧ s'.made = s.made ∧
      ∀ i result, s'.step cfg null payload (.handshake i result) = none := by
  induction acts generalizing s with
  | nil =>
    obtain rfl := Option.some.inj hrun
    exact ⟨hr, rfl, (inv_of_reach h).turn.no_dial hr⟩
  | cons a acts ih =>
    unfold runActs at hrun
    split at hrun
    · cases hrun
    · rename_i s₁ hs
      have hturn := (inv_of_reach h).turn
      have hc := change_of_step hs
      obtain ⟨hr', hmade, hdial⟩ := ih (.next h trivial hs) (failed_step hturn hr hc) hrun
      refine ⟨hr', hmade.trans (made_of_change hturn hc ?_), hdial⟩
      rw [hr]
      simp

/-- **No wakeup is lost.** When the state is not reconnecting and no task is
about to wake the waiters, every call that waits has been woken: its next step
looks at the state again. -/
theorem no_lost_wakeup (h : Reach (step cfg null payload) (fun _ _ => True) (connect : Client V P) s)
    (hs : s.state ≠ .reconnecting) (howed : ∀ t ∈ s.tasks, owes t = false) {seen : ℕ}
    (hi : s.tasks[i]? = some (.call (.parked seen))) :
    s.step cfg null payload (.run i) = some (s.move i (.call (.looking s.epoch))) := by
  have ht := (inv_of_reach h).told
  have hm := List.mem_of_getElem? hi
  have hle := ht.past _ hm seen rfl
  have hne : seen ≠ s.epoch := by
    rintro rfl
    rcases ht.owed hm with hr | ⟨t, hin, ho⟩
    · exact hs hr
    · rw [howed t hin] at ho
      cases ho
  have hlt : seen < s.epoch := by omega
  simp only [step, hi, Option.bind_some, advance, hlt, if_true]

/-- **`Reconnected` comes first.** Of a bridge that a reconnect made,
subscribers are told nothing before its `Reconnected`, that once, and then
what its triggers fired; until it is out the reader does not run. -/
theorem reconnected_comes_first (h : Reach (step cfg null payload) (fun _ _ => True) (connect : Client V P) s) {b : ℕ}
    (hb : b ≠ 0) : (s.events b = [] ∧ (s.readerOf b = none ∨ s.readerOf b = some .unstarted)) ∨
      ∃ ps : List P, s.events b = .reconnected :: ps.map .triggerFired := by
  cases (inv_of_reach h).phase b with
  | unmade pos made early late reader said => exact .inl ⟨said, .inl reader⟩
  | readied pos made early late reader said => exact .inl ⟨said, .inr reader⟩
  | announced pos made early late reader said => exact .inr ⟨[], said⟩
  | running made early late reader said =>
    obtain ⟨ps, hps⟩ := said
    rw [if_neg hb] at hps
    exact .inr ⟨ps, hps⟩

/-- The bridge is not in the state and cannot enter it. -/
structure Retired (b : ℕ) (s : Client V P) : Prop where
  made : b < s.made
  out : s.state ≠ .connected b
  unready : .resumed b ∉ s.tasks

theorem Retired.change {b : ℕ} (h : s.Retired b) (hc : Change cfg null payload s s') : s'.Retired b := by
  have hset : ∀ {i : ℕ} {t : Task V}, t ≠ .resumed b → .resumed b ∉ s.tasks.set i t := fun ht hm =>
    (List.mem_or_eq_of_mem_set hm).elim h.unready fun he => ht he.symm
  have happend : ∀ {ts : List (Task V)} {t : Task V}, .resumed b ∉ ts → t ≠ .resumed b → .resumed b ∉ ts ++ [t] :=
    fun hts ht hm => (List.mem_append.mp hm).elim hts fun he => ht (List.mem_singleton.mp he).symm
  have henter : ∀ {i : ℕ} {t : Task V}, t ≠ .resumed b → ((s.enterDisconnect cfg).move i t).Retired b := fun ht => by
    rcases enterDisconnect_cases cfg s with ⟨_, -, ⟨-, he⟩ | ⟨-, he⟩⟩ | ⟨-, he⟩
    · rw [he]
      refine ⟨h.made, fun hs => (by cases hs), fun hm => ?_⟩
      exact (List.mem_or_eq_of_mem_set hm).elim (happend h.unready (by simp)) fun he => ht he.symm
    · rw [he]
      refine ⟨h.made, fun hs => (by cases hs), fun hm => ?_⟩
      exact (List.mem_or_eq_of_mem_set hm).elim (happend h.unready (by simp)) fun he => ht he.symm
    · rw [he]
      exact ⟨h.made, h.out, hset ht⟩
  cases hc with
  | newCall => exact ⟨h.made, h.out, happend h.unready (by simp)⟩
  | call => exact ⟨h.made, h.out, hset (by simp)⟩
  | drop => exact ⟨h.made, h.out, hset (by simp)⟩
  | report => exact henter (by simp)
  | woken => exact henter (by simp)
  | @telling i reconnect => cases reconnect <;> exact ⟨h.made, h.out, hset (by simp)⟩
  | inner hi hin => cases hin <;> exact ⟨h.made, h.out, hset (by simp)⟩
  | givesUp => exact ⟨h.made, fun hs => (by cases hs), hset (by simp)⟩
  | resumes =>
    refine ⟨Nat.lt_succ_of_lt h.made, h.out, hset fun he => ?_⟩
    have := h.made
    have := Task.resumed.inj he
    omega
  | installs hi =>
    refine ⟨h.made, fun hs => ?_, hset (by simp)⟩
    obtain rfl := ConnectionState.connected.inj hs
    exact h.unready (List.mem_of_getElem? hi)
  | tells => exact ⟨h.made, h.out, hset (by simp)⟩
  | announces => exact ⟨h.made, h.out, hset (by simp)⟩
  | starts => exact ⟨h.made, h.out, hset (by simp)⟩
  | watches => exact ⟨h.made, h.out, happend (hset (by simp)) (by simp)⟩
  | @bridge c br br' a ha hb hs =>
    refine ⟨h.made, h.out, fun hm => h.unready ?_⟩
    simp only at hm
    split at hm
    · obtain ⟨t, ht, he⟩ := List.mem_map.mp hm
      exact wake_resumed he ▸ ht
    · exact hm

/-- **A connection that failed a call is not handed out again.** Once a call
has returned because bridge `b` was lost, the state names `b` in no later
state, so no later call is given it. -/
theorem not_handed_out_again (h : Reach (step cfg null payload) (fun _ _ => True) (connect : Client V P) s) {b : ℕ}
    {e : BridgeError} (he : isTransportError e = true)
    (ht : .call (.returned (some b) (.error (mapBridgeError e))) ∈ s.tasks) (acts : List (ClientAct V))
    (hrun : runActs (step cfg null payload) s acts = some s') : s'.state ≠ .connected b := by
  have hg := (inv_of_reach h).gone
  have hretired : s.Retired b :=
    ⟨hg.given _ ht b rfl, hg.lost b _ ht ⟨e, he, rfl⟩, fun hm => (hg.fresh b hm).2.2 _ ht rfl⟩
  clear h ht hg
  induction acts generalizing s with
  | nil =>
    obtain rfl := Option.some.inj hrun
    exact hretired.out
  | cons a acts ih =>
    unfold runActs at hrun
    split at hrun
    · cases hrun
    · rename_i s₁ hs
      exact ih hrun (hretired.change (change_of_step hs))

end Client

namespace BrokerBuilder

variable (cfg : BrokerBuilder)

/-- The pauses in closed form: doubled each time, from the second on no longer
than the longest. -/
theorem iterate_nextBackoff : ∀ k : ℕ, (cfg.nextBackoff)^[k] cfg.reconnectInitialBackoff =
    if k = 0 then cfg.reconnectInitialBackoff else min (cfg.reconnectInitialBackoff * 2 ^ k) cfg.reconnectMaxBackoff
  | 0 => rfl
  | k + 1 => by
    have hfits := cfg.fits
    rw [Function.iterate_succ_apply', iterate_nextBackoff k, if_neg (Nat.succ_ne_zero k), nextBackoff, Nat.pow_succ,
      ← Nat.mul_assoc]
    by_cases hk : k = 0
    · subst hk
      simp only [if_true, Nat.pow_zero, Nat.mul_one]
      omega
    · rw [if_neg hk]
      omega

end BrokerBuilder

namespace Client

variable {cfg : BrokerBuilder} {null : V} {payload : V → Option P} {s : Client V P}

/-- **A loop's dials and pauses are bounded.** A loop that pauses after its
`k`-th failed dial, counted from zero, has attempts left to have made it, and
pauses for the initial backoff doubled `k` times and cut at the longest, with
the jitter. -/
theorem dial_bounded (h : Reach (step cfg null payload) (fun _ _ => True) (connect : Client V P) s) {k backoff pause : ℕ}
    (ht : .sleeping k backoff pause ∈ s.tasks) : k < cfg.reconnectMaxAttempts ∧
      (backoff = if k = 0 then cfg.reconnectInitialBackoff
        else min (cfg.reconnectInitialBackoff * 2 ^ k) cfg.reconnectMaxBackoff) ∧ jittered backoff pause := by
  obtain ⟨hk, hb, hp⟩ := (inv_of_reach h).paced.sleeping k backoff pause ht
  exact ⟨hk, hb.trans (cfg.iterate_nextBackoff k), hp⟩

/-! ### A run -/

/-- A named session. -/
def named : BrokerBuilder := { BrokerBuilder.default with sessionName := some "work" }

/-- A call finds bridge `0` broken and reports it; another call waits, is woken
and waits again; the daemon is dialled in vain three times. -/
def lostBridge : List (ClientAct ℕ) :=
  [.run 0, .newCall, .run 1, .run 1, .bridge 0 (.register 1), .bridge 0 (.lockWriter 1),
    .bridge 0 (.write 1 (some "broken pipe")), .run 1, .run 1, .newCall, .run 3, .run 2, .run 3, .run 3, .run 2,
    .handshake 2 (.failed 91000000), .run 2, .handshake 2 (.failed 207000000), .run 2, .handshake 2 (.failed 450000000)]

/-- Then the daemon resumes the session: the state names bridge `1`, and the
waiters are woken. -/
def resumedBridge : List (ClientAct ℕ) := lostBridge ++ [.run 2, .handshake 2 .resumed, .run 2, .run 2]

/-- Then `Reconnected` is out, the reader starts, and a trigger fires. -/
def readBridge : List (ClientAct ℕ) :=
  resumedBridge ++ [.run 2, .run 2, .bridge 1 (.read (.notification ⟨"trigger_fired", 7⟩))]

/-- Or it has forgotten the session. -/
def forgottenSession : List (ClientAct ℕ) := lostBridge ++ [.run 2, .handshake 2 .isNew, .run 2]

/-- What a run of a named session leads to; payloads are numbers. -/
def after (acts : List (ClientAct ℕ)) : Client ℕ ℕ := (runActs (step named 0 some) connect acts).getD connect

theorem reach_lost : Reach (step named 0 some) (fun _ _ => True) connect (after lostBridge) :=
  reach_guarded (g := fun _ _ => true) (fun _ _ _ => trivial) lostBridge .start rfl

theorem reach_resumed : Reach (step named 0 some) (fun _ _ => True) connect (after resumedBridge) :=
  reach_guarded (g := fun _ _ => true) (fun _ _ _ => trivial) resumedBridge .start rfl

theorem reach_read : Reach (step named 0 some) (fun _ _ => True) connect (after readBridge) :=
  reach_guarded (g := fun _ _ => true) (fun _ _ _ => trivial) readBridge .start rfl

theorem reach_forgotten : Reach (step named 0 some) (fun _ _ => True) connect (after forgottenSession) :=
  reach_guarded (g := fun _ _ => true) (fun _ _ _ => trivial) forgottenSession .start rfl

theorem one_reconnect_at_a_time_lost : (after lostBridge).tasks.countP reconnects ≤ 1 ∧
    ((after lostBridge).state = .reconnecting ↔ ∃ t ∈ (after lostBridge).tasks, reconnects t = true) ∧
      (named.sessionName = none → (after lostBridge).state ≠ .reconnecting ∧ (after lostBridge).made = 1) :=
  one_reconnect_at_a_time reach_lost

theorem failed_for_good_forgotten : (after (forgottenSession ++ [.newCall, .run 4])).state = .permanentlyFailed .sessionLost ∧
    (after (forgottenSession ++ [.newCall, .run 4])).made = (after forgottenSession).made ∧
      ∀ i result, (after (forgottenSession ++ [.newCall, .run 4])).step named 0 some (.handshake i result) = none :=
  failed_for_good reach_forgotten rfl [.newCall, .run 4] rfl

theorem no_lost_wakeup_resumed : (after resumedBridge).step named 0 some (.run 3) =
    some ((after resumedBridge).move 3 (.call (.looking (after resumedBridge).epoch))) :=
  no_lost_wakeup reach_resumed (by decide) (by decide) (show (after resumedBridge).tasks[3]? = some (.call (.parked 1)) from rfl)

theorem reconnected_comes_first_read : ((after readBridge).events 1 = [] ∧
      ((after readBridge).readerOf 1 = none ∨ (after readBridge).readerOf 1 = some .unstarted)) ∨
    ∃ ps : List ℕ, (after readBridge).events 1 = .reconnected :: ps.map .triggerFired :=
  reconnected_comes_first reach_read Nat.one_ne_zero

theorem not_handed_out_again_read : (after readBridge).state ≠ .connected 0 :=
  not_handed_out_again (e := .transport "broken pipe") reach_lost rfl (.tail _ (.head _))
    [.run 2, .handshake 2 .resumed, .run 2, .run 2, .run 2, .run 2, .bridge 1 (.read (.notification ⟨"trigger_fired", 7⟩))] rfl

theorem dial_bounded_lost : 2 < named.reconnectMaxAttempts ∧
    (400000000 = if 2 = 0 then named.reconnectInitialBackoff
      else min (named.reconnectInitialBackoff * 2 ^ 2) named.reconnectMaxBackoff) ∧ jittered 400000000 450000000 :=
  dial_bounded reach_lost (.tail _ (.tail _ (.head _)))

end Client
end Sdk
end Logmon
