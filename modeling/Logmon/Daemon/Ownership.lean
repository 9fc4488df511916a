/-
# Who owns a session

Connections create, claim, reconnect to, rename and leave sessions, while
sessions are dropped and swept. A connection owns the session whose id it last
obtained, until it disconnects. All operations but two hold the registry's
write lock and are one step each. `reconnect` and the disconnect of a named
session only read it: a reconnect looks at the connected flag and then claims
it with a compare-and-exchange, and other reconnects and disconnects may come
between the two.

An owned session is registered and connected, and has one owner
(`OwnerRun.Inv`). Everything that removes or hands over a session first finds
it disconnected, so an owned session is left alone (`session_ownership`).

Key definitions: `OwnerRun`, `OwnerAct`, `OwnerRun.act`, `OwnerRun.Inv`.
Key theorems: `OwnerRun.Inv.hands`, `OwnerRun.Inv.act`, `session_ownership`.
-/
import Logmon.Daemon.SessionOps
import Logmon.Lib.Reach
import Mathlib.Logic.Function.Basic

namespace Logmon

open Lib

namespace SessionRegistry

/-- The first half of `reconnect`: what it sees under the read lock. -/
def reconnectCheck (s : SessionRegistry) (id : SessionId) : Except SessionError Unit :=
  match s.get? id with
  | none => .error (.notFound id.name.text)
  | some st =>
    if st.connected then .error (.alreadyConnected id.name.text)
    else
      match id with
      | .anonymous _ => .error (.notFound id.name.text)
      | .named _ => .ok ()

/-- The second half: the compare-and-exchange on the session it found. -/
def reconnectClaim (s : SessionRegistry) (id : SessionId) (now : ℕ) : Except SessionError SessionRegistry :=
  match s.get? id with
  | none => .error (.notFound id.name.text)
  | some st =>
    if st.connected then .error (.alreadyConnected id.name.text)
    else .ok (s.modify id fun st => { st with connected := true, lastSeen := now })

/-- With nothing in between they are the operation. -/
theorem reconnect_eq (s : SessionRegistry) (id : SessionId) (now : ℕ) :
    s.reconnect id now = (s.reconnectCheck id).bind fun _ => s.reconnectClaim id now := by
  unfold reconnect reconnectCheck reconnectClaim
  cases s.get? id with
  | none => rfl
  | some st =>
    cases hc : st.connected with
    | true => simp [hc, Except.bind]
    | false => cases id <;> simp [hc, Except.bind]

/-- After a restart every session is a named one that nobody is connected to. -/
def Restored (s : SessionRegistry) : Prop :=
  ∀ id st, s.get? id = some st → st.connected = false ∧ ∃ name, id = .named name

end SessionRegistry

/-- The sessions, the id each connection last obtained, and the reconnects
that stand between their two halves. Each of these holds the read lock. -/
structure OwnerRun where
  sessions : SessionRegistry
  held : ℕ → Option SessionId
  reconnecting : List (ℕ × SessionId)

/-- What happens, by which connection. -/
inductive OwnerAct
  | createAnonymous (c : ℕ) (uuid : SessionName)
  | createNamed (c : ℕ) (name : String)
  | claimNamed (c : ℕ) (name : String)
  | reconnectCheck (c : ℕ) (id : SessionId)
  | reconnectClaim (c : ℕ) (id : SessionId)
  | rename (c : ℕ) (name : String)
  | disconnect (c : ℕ)
  | dropSession (name : String)
  | disposeIfExpired (id : SessionId) (ttl : ℕ)

/-- The connection that acts. -/
def OwnerAct.by? : OwnerAct → Option ℕ
  | .createAnonymous c _ => some c
  | .createNamed c _ => some c
  | .claimNamed c _ => some c
  | .reconnectCheck c _ => some c
  | .reconnectClaim c _ => some c
  | .rename c _ => some c
  | .disconnect c => some c
  | .dropSession _ => none
  | .disposeIfExpired _ _ => none

namespace OwnerRun

def boot (sessions : SessionRegistry) : OwnerRun := ⟨sessions, fun _ => none, []⟩

/-- Nobody reads, so the write lock can be taken. -/
def writable (s : OwnerRun) : Bool := s.reconnecting.isEmpty

/-- The connection is not inside a reconnect of its own. -/
def idle (s : OwnerRun) (c : ℕ) : Bool := s.reconnecting.all fun x => x.1 ≠ c

/-- A UUID that no session has as its id or its name. -/
def fresh (s : OwnerRun) (uuid : SessionName) : Bool :=
  (s.sessions.get? (.anonymous uuid)).isNone && (s.sessions.get? (.named uuid)).isNone

/-- The connection obtains a session, or is told why not. -/
def grant (s : OwnerRun) (c : ℕ) : Except SessionError (SessionRegistry × SessionId) → OwnerRun × Option SessionError
  | .error e => (s, some e)
  | .ok (sessions, id) => ({ s with sessions, held := Function.update s.held c (some id) }, none)

/-- A result that moves no ownership. -/
def settle (s : OwnerRun) : Except SessionError SessionRegistry → OwnerRun × Option SessionError
  | .error e => (s, some e)
  | .ok sessions => ({ s with sessions }, none)

/-- One step, its lock permitting, and the error it returns. -/
def act (now : ℕ) (s : OwnerRun) : OwnerAct → Option (OwnerRun × Option SessionError)
  | .createAnonymous c uuid =>
    if s.writable && s.idle c && s.fresh uuid then
      some (s.grant c (.ok (s.sessions.createAnonymous uuid now)))
    else none
  | .createNamed c name =>
    if s.writable && s.idle c then some (s.grant c (s.sessions.createNamed name now)) else none
  | .claimNamed c name =>
    if s.writable && s.idle c then
      some (s.grant c ((s.sessions.claimNamed name now).map fun x => (x.1, x.2.1)))
    else none
  | .reconnectCheck c id =>
    if s.idle c then
      match s.sessions.reconnectCheck id with
      | .error e => some (s, some e)
      | .ok () => some ({ s with reconnecting := (c, id) :: s.reconnecting }, none)
    else none
  | .reconnectClaim c id =>
    if s.reconnecting.contains (c, id) then
      let s := { s with reconnecting := s.reconnecting.erase (c, id) }
      some (s.grant c ((s.sessions.reconnectClaim id now).map fun r => (r, id)))
    else none
  | .rename c name =>
    match s.held c with
    | none => none
    | some old =>
      if s.writable && s.idle c then
        some (s.grant c ((s.sessions.rename old name now).map fun x => (x.1, x.2.1)))
      else none
  | .disconnect c =>
    match s.held c with
    | none => none
    | some id =>
      let left := { s with sessions := s.sessions.disconnect id now, held := Function.update s.held c none }
      match id with
      | .anonymous _ => if s.writable && s.idle c then some (left, none) else none
      | .named _ => if s.idle c then some (left, none) else none
  | .dropSession name => if s.writable then some (s.settle (s.sessions.dropSession name)) else none
  | .disposeIfExpired id ttl =>
    if s.writable then some (s.settle (.ok (s.sessions.disposeIfExpired id ttl now).1)) else none

/-- A step at a time, whatever it returns. -/
def step (s : OwnerRun) (a : ℕ × OwnerAct) : Option OwnerRun := (s.act a.1 a.2).map Prod.fst

/-! ### The invariant -/

/-- Owned sessions are registered, connected and owned once, and no named
session has a live anonymous one's id. -/
structure Inv (s : OwnerRun) : Prop where
  owned : ∀ c id, s.held c = some id → ∃ st, s.sessions.get? id = some st ∧ st.connected = true
  unique : ∀ c c' id, s.held c = some id → s.held c' = some id → c = c'
  apart : ∀ name, s.sessions.get? (.anonymous name) ≠ none → s.sessions.get? (.named name) = none

theorem inv_boot {sessions : SessionRegistry} (h : sessions.Restored) : (boot sessions).Inv := by
  refine ⟨fun c id hc => (nomatch hc), fun c c' id hc => (nomatch hc), fun name hn => ?_⟩
  obtain ⟨st, hst⟩ := Option.ne_none_iff_exists'.mp hn
  obtain ⟨-, name', hname⟩ := h _ st hst
  cases hname

variable {s s' : OwnerRun} {now : ℕ} {e : Option SessionError}

/-- A session that is not connected is nobody's. -/
theorem Inv.not_held (h : s.Inv) {id : SessionId}
    (hfree : ∀ st, s.sessions.get? id = some st → st.connected = false) (c : ℕ) : s.held c ≠ some id := by
  intro hc
  obtain ⟨st, hst, hconn⟩ := h.owned c id hc
  rw [hfree st hst] at hconn
  cases hconn

/-- What a step changes: the sessions `r` after it and the holder `c`'s id.
Others' sessions stay as they are, what `c` then holds is connected and was
free, and no named session appears beside a live anonymous one. -/
structure Hands (s : OwnerRun) (c : ℕ) (r : SessionRegistry) (now' : Option SessionId) : Prop where
  others : ∀ c' id, c' ≠ c → s.held c' = some id → r.get? id = s.sessions.get? id
  taken : ∀ id, now' = some id → (∃ st, r.get? id = some st ∧ st.connected = true) ∧
    ∀ c', c' ≠ c → s.held c' ≠ some id
  apart : ∀ name, r.get? (.anonymous name) ≠ none → r.get? (.named name) = none

theorem Inv.hands (h : s.Inv) {c : ℕ} {r : SessionRegistry} {now' : Option SessionId} (hr : Hands s c r now')
    (reconnecting : List (ℕ × SessionId)) : Inv ⟨r, Function.update s.held c now', reconnecting⟩ := by
  refine ⟨fun c' id (hc : Function.update s.held c now' c' = some id) => ?_,
    fun c1 c2 id (h1 : Function.update s.held c now' c1 = some id) (h2 : Function.update s.held c now' c2 = some id) =>
      ?_, hr.apart⟩
  · by_cases hcc : c' = c
    · rw [hcc, Function.update_self] at hc
      exact (hr.taken id hc).1
    · rw [Function.update_of_ne hcc] at hc
      show ∃ st, r.get? id = some st ∧ _
      rw [hr.others c' id hcc hc]
      exact h.owned c' id hc
  · by_cases hc1 : c1 = c <;> by_cases hc2 : c2 = c
    · rw [hc1, hc2]
    · rw [hc1, Function.update_self] at h1
      rw [Function.update_of_ne hc2] at h2
      exact absurd h2 ((hr.taken id h1).2 c2 hc2)
    · rw [hc2, Function.update_self] at h2
      rw [Function.update_of_ne hc1] at h1
      exact absurd h1 ((hr.taken id h2).2 c1 hc1)
    · rw [Function.update_of_ne hc1] at h1
      rw [Function.update_of_ne hc2] at h2
      exact h.unique c1 c2 id h1 h2

/-! ### Each operation hands over as it may -/

theorem Inv.createAnonymous (h : s.Inv) {uuid : SessionName} (hf : s.fresh uuid = true) (c : ℕ) :
    Hands s c (s.sessions.createAnonymous uuid now).1 (some (.anonymous uuid)) := by
  simp only [fresh, Bool.and_eq_true, Option.isNone_iff_eq_none] at hf
  have hfree : ∀ c', s.held c' ≠ some (.anonymous uuid) :=
    h.not_held fun st hst => by rw [hf.1] at hst; cases hst
  refine ⟨fun c' id _ hc => ?_, fun id hid => ?_, fun name hn => ?_⟩
  · have hne : id ≠ .anonymous uuid := fun he => hfree c' (he ▸ hc)
    simp [SessionRegistry.createAnonymous, hne]
  · obtain rfl := Option.some.inj hid
    exact ⟨⟨.newAnonymous now, by simp [SessionRegistry.createAnonymous], rfl⟩, fun c' _ => hfree c'⟩
  · simp only [SessionRegistry.createAnonymous, SessionRegistry.get?_insert, reduceCtorEq, if_false] at hn ⊢
    by_cases hname : name = uuid
    · rw [hname, hf.2]
    · rw [if_neg fun he => hname (SessionId.anonymous.inj he)] at hn
      exact h.apart name hn

/-- A session made under a name that nobody holds. -/
theorem Inv.insertNamed (h : s.Inv) {name : SessionName} (hanon : s.sessions.heldAnonymously name = false)
    (hnone : s.sessions.get? (.named name) = none) (c : ℕ) :
    Hands s c (s.sessions.insert (.named name) (.newNamed name now)) (some (.named name)) := by
  have hfree : ∀ c', s.held c' ≠ some (.named name) := h.not_held fun st hst => by rw [hnone] at hst; cases hst
  refine ⟨fun c' id _ hc => ?_, fun id hid => ?_, fun name' hn => ?_⟩
  · have hne : id ≠ .named name := fun he => hfree c' (he ▸ hc)
    rw [SessionRegistry.get?_insert, if_neg hne]
  · obtain rfl := Option.some.inj hid
    exact ⟨⟨.newNamed name now, by simp, rfl⟩, fun c' _ => hfree c'⟩
  · simp only [SessionRegistry.get?_insert, reduceCtorEq, if_false] at hn ⊢
    by_cases hname : name' = name
    · rw [hname] at hn
      exact absurd (by simpa [SessionRegistry.heldAnonymously] using hanon) hn
    · rw [if_neg fun he => hname (SessionId.named.inj he)]
      exact h.apart name' hn

/-- The flag of a disconnected session is claimed. -/
theorem Inv.connect (h : s.Inv) {id : SessionId} {st : SessionState} (hst : s.sessions.get? id = some st)
    (hconn : st.connected = false) (c : ℕ) :
    Hands s c (s.sessions.modify id fun st => { st with connected := true, lastSeen := now }) (some id) := by
  have hfree : ∀ c', s.held c' ≠ some id := h.not_held fun st' hst' => by
    rw [hst] at hst'
    obtain rfl := Option.some.inj hst'
    exact hconn
  refine ⟨fun c' id' _ hc => ?_, fun id' hid => ?_, fun name hn => ?_⟩
  · have hne : id' ≠ id := fun he => hfree c' (he ▸ hc)
    rw [SessionRegistry.get?_modify, if_neg hne]
  · obtain rfl := Option.some.inj hid
    exact ⟨⟨{ st with connected := true, lastSeen := now }, by simp [hst], rfl⟩, fun c' _ => hfree c'⟩
  · have hkeep : ∀ x : SessionId, (s.sessions.modify id fun st => { st with connected := true, lastSeen := now }).get? x =
        none ↔ s.sessions.get? x = none := by
      intro x
      rw [SessionRegistry.get?_modify]
      split <;> simp
    rw [hkeep]
    exact h.apart name fun hno => hn ((hkeep _).mpr hno)

theorem Inv.rename (h : s.Inv) {c : ℕ} {old id : SessionId} {text : String} {r : SessionRegistry} {displaced : Bool}
    (hheld : s.held c = some old) (hr : s.sessions.rename old text now = .ok (r, id, displaced)) :
    Hands s c r (some id) := by
  obtain ⟨name, rfl, rfl, ⟨rfl, rfl⟩ | ⟨st, hne, hst, hanon, hfree, hget⟩⟩ := SessionRegistry.rename_ok hr
  · refine ⟨fun _ _ _ _ => rfl, fun id hid => ?_, h.apart⟩
    obtain rfl := Option.some.inj hid
    exact ⟨h.owned c _ hheld, fun c' hc' hh => hc' (h.unique c' c _ hh hheld)⟩
  · have hnew : ∀ c', s.held c' ≠ some (.named name) := h.not_held hfree
    obtain ⟨st', hst', hconn⟩ := h.owned c old hheld
    rw [hst] at hst'
    obtain rfl := Option.some.inj hst'
    refine ⟨fun c' id hc' hc => ?_, fun id hid => ?_, fun name' hn => ?_⟩
    · have h1 : id ≠ .named name := fun he => hnew c' (he ▸ hc)
      have h2 : id ≠ old := fun he => hc' (h.unique c' c old (he ▸ hc) hheld)
      rw [hget, if_neg h1, if_neg h2]
    · obtain rfl := Option.some.inj hid
      exact ⟨⟨{ st with name := some name.text, lastSeen := now }, by rw [hget, if_pos rfl], hconn⟩, fun c' _ => hnew c'⟩
    · rw [hget, if_neg (by simp)] at hn
      rw [hget]
      by_cases ho : SessionId.anonymous name' = old
      · rw [if_pos ho] at hn
        exact absurd rfl hn
      · rw [if_neg ho] at hn
        by_cases hname : name' = name
        · rcases hanon with ha | ha
          · exact absurd (hname ▸ ha.symm) ho
          · rw [hname] at hn
            exact absurd (by simpa [SessionRegistry.heldAnonymously] using ha) hn
        · rw [if_neg fun he => hname (SessionId.named.inj he)]
          split
          · rfl
          · exact h.apart name' hn

/-- A session nobody is connected to is removed. -/
theorem Inv.remove (h : s.Inv) {id : SessionId} (hfree : ∀ c, s.held c ≠ some id) :
    (∀ c id', s.held c = some id' → (s.sessions.erase id).get? id' = s.sessions.get? id') ∧
      Inv { s with sessions := s.sessions.erase id } := by
  have hkeep : ∀ c id', s.held c = some id' → (s.sessions.erase id).get? id' = s.sessions.get? id' := by
    intro c id' hc
    have hne : id' ≠ id := fun he => hfree c (he ▸ hc)
    rw [SessionRegistry.get?_erase, if_neg hne]
  refine ⟨hkeep, fun c id' hc => ?_, h.unique, fun name hn => ?_⟩
  · show ∃ st, (s.sessions.erase id).get? id' = some st ∧ _
    rw [hkeep c id' hc]
    exact h.owned c id' hc
  · simp only [SessionRegistry.get?_erase] at hn ⊢
    split at hn
    · exact absurd rfl hn
    · split
      · rfl
      · exact h.apart name hn

/-- A connection leaves: its anonymous session goes, its named one stays,
disconnected. -/
theorem Inv.disconnect (h : s.Inv) {c : ℕ} {id : SessionId} (hheld : s.held c = some id) :
    Hands s c (s.sessions.disconnect id now) none := by
  refine ⟨fun c' id' hc' hc => ?_, fun _ hid => (nomatch hid), fun name hn => ?_⟩
  · have hne : id' ≠ id := fun he => hc' (h.unique c' c id (he ▸ hc) hheld)
    cases id <;> simp [SessionRegistry.disconnect, hne]
  · cases id with
    | anonymous uuid =>
      simp only [SessionRegistry.disconnect, SessionRegistry.get?_erase, reduceCtorEq, if_false] at hn ⊢
      split at hn
      · exact absurd rfl hn
      · exact h.apart name hn
    | named name' =>
      simp only [SessionRegistry.disconnect, SessionRegistry.get?_modify, reduceCtorEq, if_false] at hn ⊢
      rw [h.apart name hn]
      split <;> rfl

/-! ### Every step -/

/-- **What a step does**: it fails and changes no session, or leaves the
invariant and others' sessions as they were. -/
theorem Inv.act (h : s.Inv) {a : OwnerAct} (ha : s.act now a = some (s', e)) :
    s'.Inv ∧ (e ≠ none → s'.sessions = s.sessions) ∧
      ∀ c id, a.by? ≠ some c → s.held c = some id → s'.held c = some id ∧ s'.sessions.get? id = s.sessions.get? id := by
  have hgrant : ∀ {c : ℕ} {reconnecting : List (ℕ × SessionId)} {x : Except SessionError (SessionRegistry × SessionId)},
      a.by? = some c → (∀ r id, x = .ok (r, id) → Hands s c r (some id)) →
      grant { s with reconnecting } c x = (s', e) → s'.Inv ∧ (e ≠ none → s'.sessions = s.sessions) ∧
        ∀ c id, a.by? ≠ some c → s.held c = some id → s'.held c = some id ∧ s'.sessions.get? id = s.sessions.get? id := by
    intro c reconnecting x hby hx hs
    cases x with
    | error err =>
      obtain ⟨rfl, rfl⟩ := Prod.mk.inj hs
      exact ⟨⟨h.owned, h.unique, h.apart⟩, fun _ => rfl, fun _ _ _ hc => ⟨hc, rfl⟩⟩
    | ok y =>
      obtain ⟨rfl, rfl⟩ := Prod.mk.inj hs
      have hands := hx y.1 y.2 rfl
      refine ⟨h.hands hands reconnecting, fun hne => absurd rfl hne, fun c' id hne hc => ?_⟩
      have hcc : c' ≠ c := fun he => hne (he ▸ hby)
      exact ⟨(Function.update_of_ne hcc _ _).trans hc, hands.others c' id hcc hc⟩
  cases a with
  | createAnonymous c uuid =>
    simp only [OwnerRun.act] at ha
    split at ha
    · rename_i hcond
      simp only [Bool.and_eq_true] at hcond
      refine hgrant (c := c) rfl (fun r id hx => ?_) (Option.some.inj ha)
      obtain ⟨rfl, rfl⟩ := Prod.mk.inj (Except.ok.inj hx)
      exact h.createAnonymous hcond.2 c
    · cases ha
  | createNamed c name =>
    simp only [OwnerRun.act] at ha
    split at ha
    · refine hgrant (c := c) rfl (fun r id hx => ?_) (Option.some.inj ha)
      obtain ⟨name', -, rfl, hanon, hnone, rfl⟩ := SessionRegistry.createNamed_ok hx
      exact h.insertNamed hanon hnone c
    · cases ha
  | claimNamed c name =>
    simp only [OwnerRun.act] at ha
    split at ha
    · refine hgrant (c := c) rfl (fun r id hx => ?_) (Option.some.inj ha)
      cases hclaim : s.sessions.claimNamed name now with
      | error err => rw [hclaim] at hx; cases hx
      | ok y =>
        rw [hclaim] at hx
        obtain ⟨rfl, rfl⟩ := Prod.mk.inj (Except.ok.inj hx)
        obtain ⟨name', -, hid, hanon, ⟨hnone, hr⟩ | ⟨st, hst, hconn, hr⟩⟩ := SessionRegistry.claimNamed_ok hclaim
        · rw [hid, hr]
          exact h.insertNamed hanon hnone c
        · rw [hid, hr]
          exact h.connect hst hconn c
    · cases ha
  | reconnectCheck c id =>
    simp only [OwnerRun.act] at ha
    split at ha
    · split at ha
      · obtain ⟨rfl, rfl⟩ := Prod.mk.inj (Option.some.inj ha)
        exact ⟨h, fun _ => rfl, fun _ _ _ hc => ⟨hc, rfl⟩⟩
      · obtain ⟨rfl, rfl⟩ := Prod.mk.inj (Option.some.inj ha)
        exact ⟨⟨h.owned, h.unique, h.apart⟩, fun _ => rfl, fun _ _ _ hc => ⟨hc, rfl⟩⟩
    · cases ha
  | reconnectClaim c id =>
    simp only [OwnerRun.act] at ha
    split at ha
    · refine hgrant (c := c) rfl (fun r id' hx => ?_) (Option.some.inj ha)
      unfold SessionRegistry.reconnectClaim at hx
      split at hx
      · cases hx
      · rename_i st hst
        split at hx
        · cases hx
        · rename_i hconn
          obtain ⟨rfl, rfl⟩ := Prod.mk.inj (Except.ok.inj hx)
          exact h.connect hst (by simpa using hconn) c
    · cases ha
  | rename c name =>
    simp only [OwnerRun.act] at ha
    split at ha
    · cases ha
    · rename_i old hheld
      split at ha
      · refine hgrant (c := c) rfl (fun r id hx => ?_) (Option.some.inj ha)
        cases hren : s.sessions.rename old name now with
        | error err => rw [hren] at hx; cases hx
        | ok y =>
          rw [hren] at hx
          obtain ⟨rfl, rfl⟩ := Prod.mk.inj (Except.ok.inj hx)
          exact h.rename hheld hren
      · cases ha
  | disconnect c =>
    simp only [OwnerRun.act] at ha
    split at ha
    · cases ha
    · rename_i id hheld
      have hands := @Inv.disconnect s now h c id hheld
      have hdone : (s', e) = (⟨s.sessions.disconnect id now, Function.update s.held c none, s.reconnecting⟩, none) := by
        cases id <;> simp only at ha <;> split at ha <;> first | exact (Option.some.inj ha).symm | cases ha
      obtain ⟨rfl, rfl⟩ := Prod.mk.inj hdone
      refine ⟨h.hands hands _, fun hne => absurd rfl hne, fun c' id' hne hc => ?_⟩
      have hcc : c' ≠ c := fun he => hne (he ▸ rfl)
      exact ⟨(Function.update_of_ne hcc _ _).trans hc, hands.others c' id' hcc hc⟩
  | dropSession name =>
    simp only [OwnerRun.act] at ha
    split at ha
    · cases hd : s.sessions.dropSession name with
      | error err =>
        rw [hd] at ha
        obtain ⟨rfl, rfl⟩ := Prod.mk.inj (Option.some.inj ha)
        exact ⟨h, fun _ => rfl, fun _ _ _ hc => ⟨hc, rfl⟩⟩
      | ok r =>
        rw [hd] at ha
        obtain ⟨rfl, rfl⟩ := Prod.mk.inj (Option.some.inj ha)
        obtain ⟨name', st, -, hst, hconn, rfl⟩ := SessionRegistry.dropSession_ok hd
        obtain ⟨hkeep, hinv⟩ := h.remove (h.not_held fun st' hst' => by
          rw [hst] at hst'
          obtain rfl := Option.some.inj hst'
          exact hconn)
        exact ⟨hinv, fun hne => absurd rfl hne, fun c id _ hc => ⟨hc, hkeep c id hc⟩⟩
    · cases ha
  | disposeIfExpired id ttl =>
    simp only [OwnerRun.act] at ha
    split at ha
    · obtain ⟨rfl, rfl⟩ := Prod.mk.inj (Option.some.inj ha)
      rcases s.sessions.disposeIfExpired_cases id ttl now with hs | ⟨st, hst, hconn, hs⟩
      · rw [hs]
        exact ⟨h, fun _ => rfl, fun _ _ _ hc => ⟨hc, rfl⟩⟩
      · rw [hs]
        obtain ⟨hkeep, hinv⟩ := h.remove (h.not_held fun st' hst' => by
          rw [hst] at hst'
          obtain rfl := Option.some.inj hst'
          exact hconn)
        exact ⟨hinv, fun hne => absurd rfl hne, fun c id' _ hc => ⟨hc, hkeep c id' hc⟩⟩
    · cases ha

theorem inv_reach {sessions : SessionRegistry} (hboot : sessions.Restored)
    (h : Reach step (fun _ _ => True) (boot sessions) s) : s.Inv := by
  refine h.invariant (inv_boot hboot) fun s a s' hinv _ hs => ?_
  obtain ⟨⟨s'', e⟩, ha, rfl⟩ := Option.map_eq_some_iff.mp hs
  exact (hinv.act ha).1

end OwnerRun

/-- **Session ownership.** In every state that any interleaving reaches, a
named session has one owner at most, no named session has the id of a live
anonymous one, and what a connection owns is registered. A step that returns
an error changes no session, and no step but its owner's changes or removes
an owned session. -/
theorem session_ownership {sessions : SessionRegistry} (hboot : sessions.Restored) {s : OwnerRun}
    (h : Reach OwnerRun.step (fun _ _ => True) (.boot sessions) s) :
    (∀ c c' name, s.held c = some (.named name) → s.held c' = some (.named name) → c = c') ∧
    (∀ name, (s.sessions.get? (.anonymous name)).isSome → s.sessions.get? (.named name) = none) ∧
    (∀ c id, s.held c = some id → (s.sessions.get? id).isSome) ∧
    ∀ now a s' e, s.act now a = some (s', e) → (e ≠ none → s'.sessions = s.sessions) ∧
      ∀ c id, a.by? ≠ some c → s.held c = some id → s'.held c = some id ∧ s'.sessions.get? id = s.sessions.get? id := by
  have hinv := OwnerRun.inv_reach hboot h
  refine ⟨fun c c' name => hinv.unique c c' _, fun name hn => ?_, fun c id hc => ?_, fun now a s' e ha => ?_⟩
  · exact hinv.apart name (Option.isSome_iff_ne_none.mp hn)
  · obtain ⟨st, hst, -⟩ := hinv.owned c id hc
    rw [hst]
    rfl
  · exact (hinv.act ha).2

namespace OwnerRun

/-- A named session of a daemon that was restarted. -/
def lane : SessionName := ⟨"lane", by decide⟩

def laneRestored : SessionRegistry :=
  SessionRegistry.new.insert (.named lane) { SessionState.newNamed lane 0 with connected := false }

/-- Two connections have looked at it, the first has claimed it, and the second
was refused. -/
def raced : OwnerRun where
  sessions := laneRestored.modify (.named lane) fun st => { st with connected := true, lastSeen := 1 }
  held := Function.update (fun _ => none) 1 (some (.named lane))
  reconnecting := []

theorem laneRestored_restored : laneRestored.Restored := by
  intro id st hst
  by_cases hid : id = .named lane
  · rw [laneRestored, SessionRegistry.get?_insert, if_pos hid] at hst
    obtain rfl := Option.some.inj hst
    exact ⟨rfl, lane, hid⟩
  · rw [laneRestored, SessionRegistry.get?_insert, if_neg hid] at hst
    cases hst

theorem reach_raced : Reach step (fun _ _ => True) (boot laneRestored) raced := by
  have h0 : Reach step (fun _ _ => True) (boot laneRestored) (boot laneRestored) := .start
  have h1 := Reach.next (a := (0, .reconnectCheck 1 (.named lane))) h0 trivial rfl
  have h2 := Reach.next (a := (0, .reconnectCheck 2 (.named lane))) h1 trivial rfl
  have h3 := Reach.next (a := (1, .reconnectClaim 1 (.named lane))) h2 trivial rfl
  exact Reach.next (a := (1, .reconnectClaim 2 (.named lane))) h3 trivial rfl

end OwnerRun

/-- After the race one of the two owns the session. -/
theorem raced_owned :
    OwnerRun.raced.held 1 = some (.named OwnerRun.lane) ∧ OwnerRun.raced.held 2 = none ∧
      (OwnerRun.raced.sessions.get? (.named OwnerRun.lane)).isSome :=
  ⟨rfl, rfl, (session_ownership OwnerRun.laneRestored_restored OwnerRun.reach_raced).2.2.1 1 _ rfl⟩

end Logmon
