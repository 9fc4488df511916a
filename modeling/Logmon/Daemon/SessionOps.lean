/-
# What a connection can do to the sessions

The rest of `daemon/session.rs`: sessions are created, claimed, renamed,
disconnected, dropped and disposed of, bound to domains, and given triggers
and filters. Every operation is one step under the registry's lock. Times are
ticks of the daemon's clock; an anonymous id is a UUID its caller supplies.

Each operation has one lemma that says what it did when it was not refused.

Key definitions: `SessionError`, `SessionOp`, `SessionRegistry.apply`,
`SessionRegistry.rename`, `SessionRegistry.claimNamed`,
`SessionRegistry.setDomain`, `SessionOp.Effect`.
Key theorems: `SessionRegistry.rename_ok`, `SessionRegistry.claimNamed_ok`,
`SessionRegistry.effect_of_apply`, `SessionRegistry.own_keeps`.
-/
import Logmon.Daemon.Session
import Logmon.Engine.Debounce
import Logmon.Filter.Parse

namespace Logmon

open Lib

/-- The always-present domain. -/
def DomainId.default : DomainId := ⟨"default"⟩

inductive SessionError
  | invalidName (name : String)
  | alreadyConnected (name : String)
  | alreadyExists (name : String)
  | notFound (what : String)
  | filterError (message : String)
  | triggerError (e : TriggerError)
  deriving DecidableEq

/-- What `dispose_if_expired` did. -/
inductive DisposeOutcome
  | disposed
  | notAbandoned
  | gone
  deriving DecidableEq

/-- The charset of session and domain names. -/
def isValidName (name : String) : Bool :=
  !name.isEmpty && name.toList.all fun c => c.isAlphanum || c = '_' || c = '-'

theorem noSlash_of_isValidName {name : String} (h : isValidName name = true) : '/' ∉ name.toList := by
  intro hmem
  simp only [isValidName, Bool.and_eq_true] at h
  exact absurd (List.all_eq_true.mp h.2 '/' hmem) (by decide)

/-- The session a string names. A name with a slash is no session's. -/
def SessionName.of? (text : String) : Option SessionName :=
  if h : '/' ∈ text.toList then none else some ⟨text, h⟩

/-! ### New sessions -/

def defaultTriggerPreWindow : ℕ := 500

def defaultTriggerPostWindow : ℕ := 200

def defaultTriggerNotifyContext : ℕ := 5

/-- A built-in trigger, with the condition its filter parses to. -/
def Trigger.builtIn (id : ℕ) (filterString : String) (q : Qualifier) (description : String) : Trigger where
  id
  condition := .qualifiers [q]
  filterString
  preWindow := defaultTriggerPreWindow
  postWindow := defaultTriggerPostWindow
  notifyContext := defaultTriggerNotifyContext
  description := some description
  oneshot := false
  matchCount := 0
  postRemaining := 0

/-- The triggers a session starts with. -/
def TriggerManager.new : TriggerManager where
  triggers := [.builtIn 1 errorFilter (.levelFilter .gte .error) "Error-level log detected",
    .builtIn 2 panicFilter (.barePattern (.regex panicSource false)) "Panic or unwrap failure detected"]
  nextId := 3

namespace SessionState

def newAnonymous (now : ℕ) : SessionState where
  name := none
  triggers := .new
  filters := []
  nextFilterId := 1
  notificationQueue := []
  maxQueueSize := 1000
  postWindowRemaining := 0
  connected := true
  lastSeen := now
  clientInfo := none
  domain := .default

def newNamed (name : SessionName) (now : ℕ) : SessionState := { newAnonymous now with name := some name.text }

def touch (now : ℕ) (st : SessionState) : SessionState := { st with lastSeen := now }

end SessionState

/-- Clear every trigger's debounce window. -/
def TriggerManager.resetPostWindows (m : TriggerManager) : TriggerManager :=
  { m with triggers := m.triggers.map fun t => { t with postRemaining := 0 } }

namespace SessionRegistry

def get? (s : SessionRegistry) (id : SessionId) : Option SessionState := s.sessions.get? id

def insert (s : SessionRegistry) (id : SessionId) (st : SessionState) : SessionRegistry := ⟨s.sessions.insert id st⟩

def erase (s : SessionRegistry) (id : SessionId) : SessionRegistry := ⟨s.sessions.erase id⟩

/-- A live anonymous session holds the name as its id. -/
def heldAnonymously (s : SessionRegistry) (name : SessionName) : Bool := (s.get? (.anonymous name)).isSome

/-! ### Lifecycle -/

def createAnonymous (s : SessionRegistry) (uuid : SessionName) (now : ℕ) : SessionRegistry × SessionId :=
  (s.insert (.anonymous uuid) (.newAnonymous now), .anonymous uuid)

def createNamed (s : SessionRegistry) (text : String) (now : ℕ) : Except SessionError (SessionRegistry × SessionId) :=
  if hv : isValidName text = true then
    let name : SessionName := ⟨text, noSlash_of_isValidName hv⟩
    if s.heldAnonymously name then .error (.alreadyConnected text)
    else
      match s.get? (.named name) with
      | some existing => if existing.connected then .error (.alreadyConnected text) else .error (.alreadyExists text)
      | none => .ok (s.insert (.named name) (.newNamed name now), .named name)
  else .error (.invalidName text)

/-- Create the named session, or take over a disconnected one. -/
def claimNamed (s : SessionRegistry) (text : String) (now : ℕ) :
    Except SessionError (SessionRegistry × SessionId × Bool) :=
  if hv : isValidName text = true then
    let name : SessionName := ⟨text, noSlash_of_isValidName hv⟩
    if s.heldAnonymously name then .error (.alreadyConnected text)
    else
      match s.get? (.named name) with
      | some existing =>
        if existing.connected then .error (.alreadyConnected text)
        else .ok (s.modify (.named name) fun st => { st with connected := true, lastSeen := now }, .named name, false)
      | none => .ok (s.insert (.named name) (.newNamed name now), .named name, true)
  else .error (.invalidName text)

def reconnect (s : SessionRegistry) (id : SessionId) (now : ℕ) : Except SessionError SessionRegistry :=
  match s.get? id with
  | none => .error (.notFound id.name.text)
  | some st =>
    if st.connected then .error (.alreadyConnected id.name.text)
    else
      match id with
      | .anonymous _ => .error (.notFound id.name.text)
      | .named _ => .ok (s.modify id fun st => { st with connected := true, lastSeen := now })

def disconnect (s : SessionRegistry) (id : SessionId) (now : ℕ) : SessionRegistry :=
  match id with
  | .anonymous _ => s.erase id
  | .named _ => s.modify id fun st => { st with connected := false, lastSeen := now }

/-- Rename `old`. A disconnected holder of the new name is displaced, a
connected one refuses; the last component says which. -/
def rename (s : SessionRegistry) (old : SessionId) (text : String) (now : ℕ) :
    Except SessionError (SessionRegistry × SessionId × Bool) :=
  if hv : isValidName text = true then
    let name : SessionName := ⟨text, noSlash_of_isValidName hv⟩
    if old = .named name then .ok (s, .named name, false)
    else
      match s.get? old with
      | none => .error (.notFound old.name.text)
      | some st =>
        -- a session renaming itself to its own id leaves no anonymous holder
        if old ≠ .anonymous name ∧ s.heldAnonymously name = true then .error (.alreadyConnected text)
        else
          match s.get? (.named name) with
          | some existing =>
            if existing.connected then .error (.alreadyConnected text)
            else
              .ok (((s.erase (.named name)).erase old).insert (.named name) { st with name := some text, lastSeen := now },
                .named name, true)
          | none =>
            .ok ((s.erase old).insert (.named name) { st with name := some text, lastSeen := now }, .named name, false)
  else .error (.invalidName text)

/-- Dispose of a session still abandoned: disconnected, and last seen longer
ago than `ttl`. -/
def disposeIfExpired (s : SessionRegistry) (id : SessionId) (ttl now : ℕ) : SessionRegistry × DisposeOutcome :=
  match s.get? id with
  | none => (s, .gone)
  | some st => if !st.connected && now - st.lastSeen > ttl then (s.erase id, .disposed) else (s, .notAbandoned)

/-- Drop a disconnected named session. -/
def dropSession (s : SessionRegistry) (text : String) : Except SessionError SessionRegistry :=
  match SessionName.of? text with
  | none => .error (.notFound text)
  | some name =>
    match s.get? (.named name) with
    | none => .error (.notFound text)
    | some st => if st.connected then .error (.alreadyConnected text) else .ok (s.erase (.named name))

/-! ### What a session sets -/

def setClientInfo (s : SessionRegistry) (id : SessionId) (info : Option JsonValue) : SessionRegistry :=
  s.modify id fun st => { st with clientInfo := info }

/-- Bound elsewhere, a session drops what it carries from the old domain. -/
def rebind (domain : DomainId) (st : SessionState) : SessionState :=
  if st.domain = domain then st
  else
    { st with domain, notificationQueue := [], postWindowRemaining := 0, triggers := st.triggers.resetPostWindows }

def setDomain (s : SessionRegistry) (id : SessionId) (domain : DomainId) : SessionRegistry :=
  s.modify id (rebind domain)

def drainNotifications (s : SessionRegistry) (id : SessionId) : SessionRegistry :=
  s.modify id fun st => { st with notificationQueue := [] }

/-- A request to one session's own state: refused when there is no session, or
by the request itself. -/
def request (s : SessionRegistry) (id : SessionId) (f : SessionState → Except SessionError SessionState) :
    Except SessionError SessionRegistry :=
  match s.get? id with
  | none => .error (.notFound id.name.text)
  | some st =>
    match f st with
    | .error e => .error e
    | .ok st' => .ok (s.modify id fun _ => st')

end SessionRegistry

namespace SessionState

section Requests

variable (parseFilter : String → Except String ParsedFilter)

def addTrigger (spec : TriggerSpec) (st : SessionState) : Except SessionError SessionState :=
  match st.triggers.add parseFilter spec with
  | .error e => .error (.triggerError e)
  | .ok (triggers, _) => .ok { st with triggers }

def editTrigger (triggerId : ℕ) (e : TriggerEdit) (st : SessionState) : Except SessionError SessionState :=
  match st.triggers.edit parseFilter triggerId e with
  | .error e => .error (.triggerError e)
  | .ok triggers => .ok { st with triggers }

def removeTrigger (triggerId : ℕ) (st : SessionState) : Except SessionError SessionState :=
  match st.triggers.get? triggerId with
  | none => .error (.triggerError (.notFound triggerId))
  | some _ => .ok { st with triggers := st.triggers.remove triggerId }

def addFilter (filter : String) (condition : ParsedFilter) (description : Option String) (st : SessionState) :
    SessionState :=
  { st with
    filters := st.filters ++ [{ id := st.nextFilterId, condition, filterString := filter, description }]
    nextFilterId := (st.nextFilterId + 1) % 2 ^ 32 }

/-- A filter after an edit whose text, if any, has been parsed. -/
def editedFilter (condition : Option (String × ParsedFilter)) (description : Option String) (f : BufferFilterEntry) :
    BufferFilterEntry :=
  { f with
    filterString := (condition.map Prod.fst).getD f.filterString
    condition := (condition.map Prod.snd).getD f.condition
    description := description.or f.description }

def editFilter (filterId : ℕ) (condition : Option (String × ParsedFilter)) (description : Option String)
    (st : SessionState) : Except SessionError SessionState :=
  if st.filters.any fun f => f.id = filterId then
    .ok { st with
      filters := modifyFirst (fun f => decide (f.id = filterId)) (editedFilter condition description) st.filters }
  else .error (.notFound ("filter " ++ toString filterId))

def removeFilter (filterId : ℕ) (st : SessionState) : Except SessionError SessionState :=
  if st.filters.any fun f => f.id = filterId then
    .ok { st with filters := st.filters.eraseP fun f => f.id = filterId }
  else .error (.notFound ("filter " ++ toString filterId))

end Requests

end SessionState

/-! ### The operations -/

/-- A request to one session's own state. -/
inductive OwnRequest
  | addTrigger (spec : TriggerSpec)
  | editTrigger (triggerId : ℕ) (e : TriggerEdit)
  | removeTrigger (triggerId : ℕ)
  | addFilter (filter : String) (description : Option String)
  | editFilter (filterId : ℕ) (filter : Option String) (description : Option String)
  | removeFilter (filterId : ℕ)

/-- Everything done to the sessions between entries. -/
inductive SessionOp
  | createAnonymous (uuid : SessionName)
  | createNamed (name : String)
  | claimNamed (name : String)
  | reconnect (id : SessionId)
  | disconnect (id : SessionId)
  | rename (old : SessionId) (name : String)
  | disposeIfExpired (id : SessionId) (ttl : ℕ)
  | dropSession (name : String)
  | setDomain (id : SessionId) (domain : DomainId)
  | setClientInfo (id : SessionId) (info : Option JsonValue)
  | drainNotifications (id : SessionId)
  | own (id : SessionId) (r : OwnRequest)

/-- The parsed text of a filter, where there is one. -/
def parsedText (parseFilter : String → Except String ParsedFilter) :
    Option String → Except SessionError (Option (String × ParsedFilter))
  | none => .ok none
  | some f =>
    match parseFilter f with
    | .error e => .error (.filterError e)
    | .ok condition => .ok (some (f, condition))

/-- What a request makes of its session's state, or why it is refused. A
filter that does not parse is refused before the session is looked up. -/
def OwnRequest.on (parseFilter : String → Except String ParsedFilter) :
    OwnRequest → Except SessionError (SessionState → Except SessionError SessionState)
  | .addTrigger spec => .ok (SessionState.addTrigger parseFilter spec)
  | .editTrigger triggerId e => .ok (SessionState.editTrigger parseFilter triggerId e)
  | .removeTrigger triggerId => .ok (SessionState.removeTrigger triggerId)
  | .addFilter filter description =>
    match parseFilter filter with
    | .error e => .error (.filterError e)
    | .ok condition => .ok fun st => .ok (st.addFilter filter condition description)
  | .editFilter filterId filter description =>
    match parsedText parseFilter filter with
    | .error e => .error e
    | .ok condition => .ok (SessionState.editFilter filterId condition description)
  | .removeFilter filterId => .ok (SessionState.removeFilter filterId)

namespace SessionRegistry

variable (parseFilter : String → Except String ParsedFilter)

/-- One operation: the sessions after it, or why it is refused. -/
def apply (now : ℕ) (s : SessionRegistry) : SessionOp → Except SessionError SessionRegistry
  | .createAnonymous uuid => .ok (s.createAnonymous uuid now).1
  | .createNamed name => (s.createNamed name now).map Prod.fst
  | .claimNamed name => (s.claimNamed name now).map Prod.fst
  | .reconnect id => s.reconnect id now
  | .disconnect id => .ok (s.disconnect id now)
  | .rename old name => (s.rename old name now).map Prod.fst
  | .disposeIfExpired id ttl => .ok (s.disposeIfExpired id ttl now).1
  | .dropSession name => s.dropSession name
  | .setDomain id domain => .ok (s.setDomain id domain)
  | .setClientInfo id info => .ok (s.setClientInfo id info)
  | .drainNotifications id => .ok (s.drainNotifications id)
  | .own id r =>
    match r.on parseFilter with
    | .error e => .error e
    | .ok f => s.request id f

/-- A refused operation leaves the sessions as they are. -/
def after (now : ℕ) (s : SessionRegistry) (op : SessionOp) : SessionRegistry :=
  match s.apply parseFilter now op with
  | .ok s' => s'
  | .error _ => s

/-! ### What each operation did -/

variable {parseFilter : String → Except String ParsedFilter} {s s' : SessionRegistry} {id id' : SessionId}
  {st : SessionState} {now : ℕ} {text : String}

@[simp] theorem get?_modify (s : SessionRegistry) (id id' : SessionId) (f : SessionState → SessionState) :
    (s.modify id f).get? id' = if id' = id then (s.get? id').map f else s.get? id' :=
  FMap.get?_modify s.sessions id id' f

@[simp] theorem get?_insert (s : SessionRegistry) (id id' : SessionId) (st : SessionState) :
    (s.insert id st).get? id' = if id' = id then some st else s.get? id' :=
  FMap.get?_insert s.sessions id id' st

@[simp] theorem get?_erase (s : SessionRegistry) (id id' : SessionId) :
    (s.erase id).get? id' = if id' = id then none else s.get? id' :=
  FMap.get?_erase s.sessions id id'

theorem createNamed_ok (h : s.createNamed text now = .ok (s', id)) :
    ∃ name : SessionName, name.text = text ∧ id = .named name ∧ s.heldAnonymously name = false ∧
      s.get? (.named name) = none ∧ s' = s.insert (.named name) (.newNamed name now) := by
  unfold createNamed at h
  split at h
  · rename_i hv
    dsimp only at h
    split at h
    · cases h
    · rename_i hheld
      split at h
      · split at h <;> cases h
      · rename_i hnone
        obtain ⟨rfl, rfl⟩ := Prod.mk.inj (Except.ok.inj h)
        exact ⟨⟨text, noSlash_of_isValidName hv⟩, rfl, rfl, by simpa using hheld, hnone, rfl⟩
  · cases h

theorem claimNamed_ok {isNew : Bool} (h : s.claimNamed text now = .ok (s', id, isNew)) :
    ∃ name : SessionName, name.text = text ∧ id = .named name ∧ s.heldAnonymously name = false ∧
      (s.get? (.named name) = none ∧ s' = s.insert (.named name) (.newNamed name now) ∨
       ∃ st, s.get? (.named name) = some st ∧ st.connected = false ∧
         s' = s.modify (.named name) fun st => { st with connected := true, lastSeen := now }) := by
  unfold claimNamed at h
  split at h
  · rename_i hv
    dsimp only at h
    split at h
    · cases h
    · rename_i hheld
      have hheld' : s.heldAnonymously ⟨text, noSlash_of_isValidName hv⟩ = false := by simpa using hheld
      split at h
      · rename_i st hst
        split at h
        · cases h
        · rename_i hconn
          obtain ⟨rfl, hrest⟩ := Prod.mk.inj (Except.ok.inj h)
          obtain ⟨rfl, -⟩ := Prod.mk.inj hrest
          exact ⟨⟨text, noSlash_of_isValidName hv⟩, rfl, rfl, hheld', .inr ⟨st, hst, by simpa using hconn, rfl⟩⟩
      · rename_i hnone
        obtain ⟨rfl, hrest⟩ := Prod.mk.inj (Except.ok.inj h)
        obtain ⟨rfl, -⟩ := Prod.mk.inj hrest
        exact ⟨⟨text, noSlash_of_isValidName hv⟩, rfl, rfl, hheld', .inl ⟨hnone, rfl⟩⟩
  · cases h

theorem reconnect_ok (h : s.reconnect id now = .ok s') :
    ∃ name st, id = .named name ∧ s.get? id = some st ∧ st.connected = false ∧
      s' = s.modify id fun st => { st with connected := true, lastSeen := now } := by
  unfold reconnect at h
  split at h
  · cases h
  · rename_i st hst
    split at h
    · cases h
    · rename_i hconn
      split at h
      · cases h
      · rename_i name
        exact ⟨name, st, rfl, hst, by simpa using hconn, (Except.ok.inj h).symm⟩

theorem erase_of_none (h : s.get? id = none) : s.erase id = s := by
  obtain ⟨⟨entries, nodup⟩⟩ := s
  have hsame := FMap.entries_erase_of_none (m := ⟨entries, nodup⟩) h
  unfold erase
  congr 1
  generalize FMap.erase ⟨entries, nodup⟩ id = m at hsame ⊢
  obtain ⟨entries', nodup'⟩ := m
  obtain rfl := hsame
  rfl

/-- A rename that did something: nobody lives under the new name but a
disconnected session, which goes, and the old state stands under it. -/
theorem rename_eq {old : SessionId} {displaced : Bool} (h : s.rename old text now = .ok (s', id, displaced)) :
    ∃ name : SessionName, name.text = text ∧ id = .named name ∧
      (old = .named name ∧ s' = s ∨
       ∃ st, old ≠ .named name ∧ s.get? old = some st ∧ (old = .anonymous name ∨ s.heldAnonymously name = false) ∧
         (∀ existing, s.get? (.named name) = some existing → existing.connected = false) ∧
         s' = ((s.erase (.named name)).erase old).insert (.named name)
           { st with name := some text, lastSeen := now }) := by
  unfold rename at h
  split at h
  · rename_i hv
    refine ⟨⟨text, noSlash_of_isValidName hv⟩, rfl, ?_⟩
    dsimp only at h
    split at h
    · rename_i hold
      obtain ⟨rfl, hrest⟩ := Prod.mk.inj (Except.ok.inj h)
      obtain ⟨rfl, -⟩ := Prod.mk.inj hrest
      exact ⟨rfl, .inl ⟨hold, rfl⟩⟩
    · rename_i hold
      split at h
      · cases h
      · rename_i st hst
        split at h
        · cases h
        · rename_i hheld
          have hanon : old = .anonymous ⟨text, noSlash_of_isValidName hv⟩ ∨
              s.heldAnonymously ⟨text, noSlash_of_isValidName hv⟩ = false := by
            by_cases ho : old = .anonymous ⟨text, noSlash_of_isValidName hv⟩
            · exact .inl ho
            · refine .inr ?_
              by_contra hne
              exact hheld ⟨ho, by simpa using hne⟩
          split at h
          · rename_i existing hex
            split at h
            · cases h
            · rename_i hconn
              obtain ⟨rfl, hrest⟩ := Prod.mk.inj (Except.ok.inj h)
              obtain ⟨rfl, -⟩ := Prod.mk.inj hrest
              refine ⟨rfl, .inr ⟨st, hold, hst, hanon, fun e he => ?_, rfl⟩⟩
              rw [hex] at he
              obtain rfl := Option.some.inj he
              simpa using hconn
          · rename_i hnone
            obtain ⟨rfl, hrest⟩ := Prod.mk.inj (Except.ok.inj h)
            obtain ⟨rfl, -⟩ := Prod.mk.inj hrest
            refine ⟨rfl, .inr ⟨st, hold, hst, hanon, fun e he => ?_, ?_⟩⟩
            · rw [hnone] at he
              cases he
            · rw [erase_of_none hnone]
  · cases h

/-- The lookups after it. -/
theorem rename_ok {old : SessionId} {displaced : Bool} (h : s.rename old text now = .ok (s', id, displaced)) :
    ∃ name : SessionName, name.text = text ∧ id = .named name ∧
      (old = .named name ∧ s' = s ∨
       ∃ st, old ≠ .named name ∧ s.get? old = some st ∧ (old = .anonymous name ∨ s.heldAnonymously name = false) ∧
         (∀ existing, s.get? (.named name) = some existing → existing.connected = false) ∧
         ∀ id', s'.get? id' =
           if id' = .named name then some { st with name := some text, lastSeen := now }
           else if id' = old then none else s.get? id') := by
  obtain ⟨name, htext, hid, hsame | ⟨st, hold, hst, hanon, hex, rfl⟩⟩ := rename_eq h
  · exact ⟨name, htext, hid, .inl hsame⟩
  · refine ⟨name, htext, hid, .inr ⟨st, hold, hst, hanon, hex, fun id' => ?_⟩⟩
    rw [get?_insert, get?_erase, get?_erase]
    by_cases h1 : id' = .named name
    · rw [if_pos h1, if_pos h1]
    · rw [if_neg h1, if_neg h1, if_neg h1]

theorem disposeIfExpired_cases (s : SessionRegistry) (id : SessionId) (ttl now : ℕ) :
    (s.disposeIfExpired id ttl now).1 = s ∨
      ∃ st, s.get? id = some st ∧ st.connected = false ∧ (s.disposeIfExpired id ttl now).1 = s.erase id := by
  unfold disposeIfExpired
  split
  · exact .inl rfl
  · rename_i st hst
    split
    · rename_i hgone
      simp only [Bool.and_eq_true, Bool.not_eq_true'] at hgone
      exact .inr ⟨st, hst, hgone.1, rfl⟩
    · exact .inl rfl

theorem dropSession_ok (h : s.dropSession text = .ok s') :
    ∃ (name : SessionName) (st : SessionState), name.text = text ∧ s.get? (.named name) = some st ∧
      st.connected = false ∧ s' = s.erase (.named name) := by
  unfold dropSession at h
  split at h
  · cases h
  · rename_i name hname
    have htext : name.text = text := by
      unfold SessionName.of? at hname
      split at hname
      · cases hname
      · rw [← Option.some.inj hname]
    split at h
    · cases h
    · rename_i st hst
      split at h
      · cases h
      · rename_i hconn
        exact ⟨name, st, htext, hst, by simpa using hconn, (Except.ok.inj h).symm⟩

theorem request_ok {f : SessionState → Except SessionError SessionState} (h : s.request id f = .ok s') :
    ∃ st st', s.get? id = some st ∧ f st = .ok st' ∧ s' = s.modify id fun _ => st' := by
  unfold request at h
  split at h
  · cases h
  · rename_i st hst
    split at h
    · cases h
    · rename_i st' hf
      exact ⟨st, st', hst, hf, (Except.ok.inj h).symm⟩

end SessionRegistry

/-! ### All of it at once -/

/-- What an operation that is not refused makes of the sessions. -/
inductive SessionOp.Effect (parseFilter : String → Except String ParsedFilter) (now : ℕ) (s : SessionRegistry) :
    SessionOp → SessionRegistry → Prop
  | createAnonymous (uuid : SessionName) :
    Effect parseFilter now s (.createAnonymous uuid) (s.insert (.anonymous uuid) (.newAnonymous now))
  | createNamed (name : SessionName) : s.heldAnonymously name = false → s.get? (.named name) = none →
    Effect parseFilter now s (.createNamed name.text) (s.insert (.named name) (.newNamed name now))
  | claimNew (name : SessionName) : s.heldAnonymously name = false → s.get? (.named name) = none →
    Effect parseFilter now s (.claimNamed name.text) (s.insert (.named name) (.newNamed name now))
  | claimOld {name : SessionName} {st : SessionState} : s.get? (.named name) = some st → st.connected = false →
    Effect parseFilter now s (.claimNamed name.text)
      (s.modify (.named name) fun st => { st with connected := true, lastSeen := now })
  | reconnect {name : SessionName} {st : SessionState} : s.get? (.named name) = some st → st.connected = false →
    Effect parseFilter now s (.reconnect (.named name))
      (s.modify (.named name) fun st => { st with connected := true, lastSeen := now })
  | disconnectAnonymous (uuid : SessionName) :
    Effect parseFilter now s (.disconnect (.anonymous uuid)) (s.erase (.anonymous uuid))
  | disconnectNamed (name : SessionName) :
    Effect parseFilter now s (.disconnect (.named name))
      (s.modify (.named name) fun st => { st with connected := false, lastSeen := now })
  | renameSame (name : SessionName) : Effect parseFilter now s (.rename (.named name) name.text) s
  | rename {old : SessionId} {name : SessionName} {st : SessionState} : old ≠ .named name → s.get? old = some st →
    (old = .anonymous name ∨ s.heldAnonymously name = false) →
    (∀ existing, s.get? (.named name) = some existing → existing.connected = false) →
    Effect parseFilter now s (.rename old name.text)
      (((s.erase (.named name)).erase old).insert (.named name) { st with name := some name.text, lastSeen := now })
  | notDisposed (id : SessionId) (ttl : ℕ) : Effect parseFilter now s (.disposeIfExpired id ttl) s
  | disposed {id : SessionId} {st : SessionState} (ttl : ℕ) : s.get? id = some st → st.connected = false →
    Effect parseFilter now s (.disposeIfExpired id ttl) (s.erase id)
  | dropSession {name : SessionName} {st : SessionState} : s.get? (.named name) = some st → st.connected = false →
    Effect parseFilter now s (.dropSession name.text) (s.erase (.named name))
  | setDomain (id : SessionId) (domain : DomainId) :
    Effect parseFilter now s (.setDomain id domain) (s.modify id (SessionRegistry.rebind domain))
  | setClientInfo (id : SessionId) (info : Option JsonValue) :
    Effect parseFilter now s (.setClientInfo id info) (s.modify id fun st => { st with clientInfo := info })
  | drainNotifications (id : SessionId) :
    Effect parseFilter now s (.drainNotifications id) (s.modify id fun st => { st with notificationQueue := [] })
  | own {id : SessionId} {r : OwnRequest} {f : SessionState → Except SessionError SessionState} {st st' : SessionState} :
    r.on parseFilter = .ok f → s.get? id = some st → f st = .ok st' →
    Effect parseFilter now s (.own id r) (s.modify id fun _ => st')

theorem exists_of_map_ok {α β ε : Type} {x : Except ε α} {f : α → β} {b : β} (h : x.map f = .ok b) :
    ∃ a, x = .ok a ∧ f a = b := by
  cases x with
  | error e => cases h
  | ok a => exact ⟨a, rfl, Except.ok.inj h⟩

namespace SessionRegistry

variable {parseFilter : String → Except String ParsedFilter} {s s' : SessionRegistry} {st : SessionState} {now : ℕ}

/-- **What an operation did.** -/
theorem effect_of_apply {op : SessionOp} (h : s.apply parseFilter now op = .ok s') : op.Effect parseFilter now s s' := by
  cases op with
  | createAnonymous uuid =>
    obtain rfl := Except.ok.inj h
    exact .createAnonymous uuid
  | createNamed name =>
    obtain ⟨⟨s1, id⟩, hr, rfl⟩ := exists_of_map_ok h
    obtain ⟨name, rfl, rfl, hheld, hnone, rfl⟩ := createNamed_ok hr
    exact .createNamed name hheld hnone
  | claimNamed name =>
    obtain ⟨⟨s1, id, isNew⟩, hr, rfl⟩ := exists_of_map_ok h
    obtain ⟨name, rfl, rfl, hheld, ⟨hnone, rfl⟩ | ⟨st, hst, hconn, rfl⟩⟩ := claimNamed_ok hr
    · exact .claimNew name hheld hnone
    · exact .claimOld hst hconn
  | reconnect id =>
    obtain ⟨name, st, rfl, hst, hconn, rfl⟩ := reconnect_ok h
    exact .reconnect hst hconn
  | disconnect id =>
    obtain rfl := Except.ok.inj h
    cases id with
    | anonymous uuid => exact .disconnectAnonymous uuid
    | named name => exact .disconnectNamed name
  | rename old name =>
    obtain ⟨⟨s1, id, displaced⟩, hr, rfl⟩ := exists_of_map_ok h
    obtain ⟨name, rfl, rfl, ⟨rfl, rfl⟩ | ⟨st, hold, hst, hanon, hex, rfl⟩⟩ := rename_eq hr
    · exact .renameSame name
    · exact .rename hold hst hanon hex
  | disposeIfExpired id ttl =>
    obtain rfl := Except.ok.inj h
    rcases disposeIfExpired_cases s id ttl now with hsame | ⟨st, hst, hconn, herase⟩
    · rw [hsame]
      exact .notDisposed id ttl
    · rw [herase]
      exact .disposed ttl hst hconn
  | dropSession name =>
    obtain ⟨name, st, rfl, hst, hconn, rfl⟩ := dropSession_ok h
    exact .dropSession hst hconn
  | setDomain id domain =>
    obtain rfl := Except.ok.inj h
    exact .setDomain id domain
  | setClientInfo id info =>
    obtain rfl := Except.ok.inj h
    exact .setClientInfo id info
  | drainNotifications id =>
    obtain rfl := Except.ok.inj h
    exact .drainNotifications id
  | own id r =>
    simp only [apply] at h
    split at h
    · cases h
    · rename_i f hf
      obtain ⟨st, st', hst, hfst, rfl⟩ := request_ok h
      exact .own hf hst hfst

/-- A session's own requests touch its triggers and filters only. -/
theorem own_keeps {r : OwnRequest} {f : SessionState → Except SessionError SessionState} {st' : SessionState}
    (hr : r.on parseFilter = .ok f) (h : f st = .ok st') :
    st' = { st with triggers := st'.triggers, filters := st'.filters, nextFilterId := st'.nextFilterId } := by
  cases r with
  | addTrigger spec =>
    obtain rfl := Except.ok.inj hr
    unfold SessionState.addTrigger at h
    split at h
    · cases h
    · obtain rfl := Except.ok.inj h
      rfl
  | editTrigger triggerId e =>
    obtain rfl := Except.ok.inj hr
    unfold SessionState.editTrigger at h
    split at h
    · cases h
    · obtain rfl := Except.ok.inj h
      rfl
  | removeTrigger triggerId =>
    obtain rfl := Except.ok.inj hr
    unfold SessionState.removeTrigger at h
    split at h
    · cases h
    · obtain rfl := Except.ok.inj h
      rfl
  | addFilter filter description =>
    simp only [OwnRequest.on] at hr
    split at hr
    · cases hr
    · obtain rfl := Except.ok.inj hr
      obtain rfl := Except.ok.inj h
      rfl
  | editFilter filterId filter description =>
    simp only [OwnRequest.on] at hr
    split at hr
    · cases hr
    · obtain rfl := Except.ok.inj hr
      unfold SessionState.editFilter at h
      split at h
      · obtain rfl := Except.ok.inj h
        rfl
      · cases h
  | removeFilter filterId =>
    obtain rfl := Except.ok.inj hr
    unfold SessionState.removeFilter at h
    split at h
    · obtain rfl := Except.ok.inj h
      rfl
    · cases h

end SessionRegistry

end Logmon
