/-
# A restart keeps the named sessions

`snapshot_named_for_persistence` and `restore_named` of `daemon/session.rs`,
with the records of `daemon/persistence.rs` and the RPC's own refusals. A
restore skips a trigger or filter that does not parse, that carries a bookmark
or cursor qualifier, or whose pre-window is oversize. Nothing that a run of
the daemon registers is skipped (`SessionState.Restorable`, kept by every
action), so a restart brings every named session back and a second snapshot
equals the first (`restart_preserves`). The JSON between the two is taken to
read back what was written.

Key definitions: `PersistedSession`, `OwnRequest.refusal`,
`SessionRegistry.snapshotNamedForPersistence`, `restoreNamed`,
`SessionState.Restorable`.
Key theorems: `restorable_step`, `bookmarksOf_eq`, `restart_preserves`.
-/
import Logmon.Daemon.System
import Logmon.Lib.Reach
import Logmon.Store.Bookmarks
import Mathlib.Data.List.Sort
import Mathlib.Data.String.Basic

namespace Logmon

open Lib SessionRegistry

/-! ### The records -/

structure PersistedTrigger where
  filter : String
  preWindow : ℕ
  postWindow : ℕ
  notifyContext : ℕ
  description : Option String
  oneshot : Bool
  deriving DecidableEq

structure PersistedFilter where
  filter : String
  description : Option String
  deriving DecidableEq

/-- Under its bare name: the session is the record's. -/
structure PersistedBookmark where
  name : String
  seq : ℕ
  createdAt : ℤ
  description : Option String
  deriving DecidableEq

structure PersistedSession where
  triggers : List PersistedTrigger
  filters : List PersistedFilter
  clientInfo : Option JsonValue
  bookmarks : List PersistedBookmark
  deriving DecidableEq

/-! ### What the RPC refuses -/

section Refusals

variable (env : ParseEnv)

def refuseBookmarkIn (parsed : ParsedFilter) : Except String Unit :=
  if parsed.containsBookmarkQualifier then
    .error ("bookmarks and cursors (b>=, b<=, c>=) are not allowed in registered filters, triggers or collectors " ++
      "— use them only in query tools")
  else .ok ()

def refuseOversizePreWindow (pre : ℕ) : Except String Unit :=
  if pre > maxBufferSize then
    .error ("pre_window " ++ toString pre ++ " exceeds the maximum of " ++ toString maxBufferSize ++ " records")
  else .ok ()

def refuseBookmarkQualifier (filter : String) : Except String Unit :=
  match env.parse filter with
  | .error e => .error e
  | .ok parsed => refuseBookmarkIn parsed

/-- An edit's filter that does not parse is left to the session. -/
def refuseBookmarkInEdit : Option String → Except String Unit
  | none => .ok ()
  | some filter =>
    match env.parse filter with
    | .error _ => .ok ()
    | .ok parsed => refuseBookmarkIn parsed

/-- What the handlers of `triggers.*` and `filters.*` check before they ask
the session. -/
def OwnRequest.refusal : OwnRequest → Except String Unit
  | .addTrigger spec => (refuseBookmarkQualifier env spec.filter).bind fun _ => refuseOversizePreWindow spec.preWindow
  | .editTrigger _ e =>
    (refuseBookmarkInEdit env e.filter).bind fun _ =>
      match e.preWindow with
      | none => .ok ()
      | some pre => refuseOversizePreWindow pre
  | .removeTrigger _ => .ok ()
  | .addFilter filter _ => refuseBookmarkQualifier env filter
  | .editFilter _ filter _ => refuseBookmarkInEdit env filter
  | .removeFilter _ => .ok ()

/-- The RPC lets the action through. -/
def DaemonAct.admitted : DaemonAct → Prop
  | .session _ (.own _ r) => r.refusal env = .ok ()
  | _ => True

end Refusals

/-! ### The snapshot -/

/-- Newest seq first, then by key. -/
def Bookmark.listOrder (a b : Bookmark) : Prop :=
  b.seq < a.seq ∨ a.seq = b.seq ∧ a.qualifiedName ≤ b.qualifiedName

instance : DecidableRel Bookmark.listOrder := fun _ _ => inferInstanceAs (Decidable (_ ∨ _ ∧ _))

def BookmarkStore.list (s : BookmarkStore) : List Bookmark :=
  (s.bookmarks.entries.map Prod.snd).insertionSort Bookmark.listOrder

def Bookmark.persisted (b : Bookmark) : PersistedBookmark := ⟨b.name, b.seq, b.createdAt, b.description⟩

/-- A session's bucket of the listed bookmarks. -/
def BookmarkStore.bookmarksOf (s : BookmarkStore) (session : SessionName) : List PersistedBookmark :=
  (s.list.filter fun b => b.session = session).map Bookmark.persisted

def Trigger.persisted (t : Trigger) : PersistedTrigger :=
  ⟨t.filterString, t.preWindow, t.postWindow, t.notifyContext, t.description, t.oneshot⟩

def BufferFilterEntry.persisted (f : BufferFilterEntry) : PersistedFilter := ⟨f.filterString, f.description⟩

/-- One session's record, with its bookmarks. -/
def SessionState.persisted (st : SessionState) (bookmarks : List PersistedBookmark) : PersistedSession where
  triggers := st.triggers.triggers.map Trigger.persisted
  filters := st.filters.map BufferFilterEntry.persisted
  clientInfo := st.clientInfo
  bookmarks

/-- Anonymous sessions are skipped. -/
def SessionRegistry.snapshotNamedForPersistence (s : SessionRegistry) (bookmarks : BookmarkStore) :
    FMap SessionName PersistedSession :=
  s.sessions.entries.foldl (fun out q =>
    match q.1 with
    | .anonymous _ => out
    | .named name => out.insert name (q.2.persisted (bookmarks.bookmarksOf name))) ∅

/-! ### The restore -/

section Restore

variable (env : ParseEnv)

def carriesBookmark (filter : String) : Bool :=
  match env.parse filter with
  | .error _ => false
  | .ok parsed => parsed.containsBookmarkQualifier

def restoreTrigger (m : TriggerManager) (pt : PersistedTrigger) : TriggerManager :=
  if pt.preWindow > maxBufferSize then m
  else if carriesBookmark env pt.filter then m
  else
    match m.add env.parse ⟨pt.filter, pt.preWindow, pt.postWindow, pt.notifyContext, pt.description, pt.oneshot⟩ with
    | .error _ => m
    | .ok (m, _) => m

def restoreFilter (st : SessionState) (pf : PersistedFilter) : SessionState :=
  if carriesBookmark env pf.filter then st
  else
    match env.parse pf.filter with
    | .error _ => st
    | .ok condition => st.addFilter pf.filter condition pf.description

/-- The triggers a session starts with, removed one by one. -/
def TriggerManager.cleared : TriggerManager :=
  TriggerManager.new.triggers.foldl (fun m t => m.remove t.id) .new

/-- A disconnected session made from its record. -/
def SessionState.restored (name : SessionName) (persisted : PersistedSession) (now : ℕ) : SessionState :=
  let st : SessionState :=
    { SessionState.newNamed name now with
      connected := false
      triggers := persisted.triggers.foldl (restoreTrigger env) .cleared }
  let st := persisted.filters.foldl (restoreFilter env) st
  { st with clientInfo := persisted.clientInfo.or st.clientInfo }

/-- A bookmark made from its record. What is not persisted starts again. -/
def PersistedBookmark.restored (session : SessionName) (pb : PersistedBookmark) : Bookmark :=
  ⟨qualify session pb.name, pb.name, session, pb.seq, pb.createdAt, pb.description, 0, pb.seq, rfl⟩

def restoreNamed (now : ℕ) (x : SessionRegistry × BookmarkStore) (q : SessionName × PersistedSession) :
    SessionRegistry × BookmarkStore :=
  (x.1.insert (.named q.1) (SessionState.restored env q.1 q.2 now),
   q.2.bookmarks.foldl (fun b pb => b.put (pb.restored q.1)) x.2)

/-- The sessions of a state file, in the order its map gives them. -/
def restoreAll (now : ℕ) (saved : List (SessionName × PersistedSession)) : SessionRegistry × BookmarkStore :=
  saved.foldl (restoreNamed env now) (.new, .new)

end Restore

/-! ### What a run registers can be restored -/

section Restorable

variable (env : ParseEnv)

/-- The three checks of a restore. -/
structure Trigger.Restorable (t : Trigger) : Prop where
  parses : env.parse t.filterString = .ok t.condition
  noBookmark : t.condition.containsBookmarkQualifier = false
  preWindow_le : t.preWindow ≤ maxBufferSize

structure BufferFilterEntry.Restorable (f : BufferFilterEntry) : Prop where
  parses : env.parse f.filterString = .ok f.condition
  noBookmark : f.condition.containsBookmarkQualifier = false

structure SessionState.Restorable (st : SessionState) : Prop where
  triggers : ∀ t ∈ st.triggers.triggers, t.Restorable env
  filters : ∀ f ∈ st.filters, f.Restorable env

end Restorable

variable {env : ParseEnv}

namespace SessionState

variable {st : SessionState}

theorem restorable_core : st.core.Restorable env ↔ st.Restorable env := by
  constructor
  · intro h
    refine ⟨fun t ht => ?_, h.filters⟩
    have := h.triggers t.core (List.mem_map_of_mem ht)
    exact ⟨this.parses, this.noBookmark, this.preWindow_le⟩
  · intro h
    refine ⟨fun t ht => ?_, h.filters⟩
    obtain ⟨t0, ht0, rfl⟩ := List.mem_map.mp ht
    have := h.triggers t0 ht0
    exact ⟨this.parses, this.noBookmark, this.preWindow_le⟩

theorem Restorable.dropOneshot (h : st.Restorable env) (m : TriggerMatch) : (dropOneshot st m).Restorable env := by
  unfold Logmon.dropOneshot
  split
  · exact ⟨fun t ht => h.triggers t (List.mem_of_mem_eraseP ht), h.filters⟩
  · exact h

theorem Restorable.dropOneshots : ∀ (fired : List TriggerMatch) {st : SessionState}, st.Restorable env →
    (fired.foldl Logmon.dropOneshot st).Restorable env
  | [], _, h => h
  | m :: fired, _, h => Restorable.dropOneshots fired (h.dropOneshot m)

theorem Restorable.seenCore (h : st.Restorable env) (E : TextEnv) (entry : LogEntry) :
    (seenCore E entry st).Restorable env := by
  refine ⟨fun t ht => ?_, h.filters⟩
  obtain ⟨t1, ht1, rfl⟩ := List.mem_map.mp ht
  obtain ⟨t0, ht0, rfl⟩ := List.mem_map.mp ht1
  have hr := h.triggers t0 ht0
  have hsee : (t0.see E entry).1.filterString = t0.filterString ∧ (t0.see E entry).1.condition = t0.condition ∧
      (t0.see E entry).1.preWindow = t0.preWindow := by
    unfold Trigger.see
    split
    · exact ⟨rfl, rfl, rfl⟩
    · split <;> exact ⟨rfl, rfl, rfl⟩
  obtain ⟨h1, h2, h3⟩ := hsee
  refine ⟨?_, ?_, ?_⟩
  · show env.parse (t0.see E entry).1.filterString = .ok (t0.see E entry).1.condition
    rw [h1, h2]
    exact hr.parses
  · show (t0.see E entry).1.condition.containsBookmarkQualifier = false
    rw [h2]
    exact hr.noBookmark
  · show (t0.see E entry).1.preWindow ≤ maxBufferSize
    rw [h3]
    exact hr.preWindow_le

theorem Restorable.turnCore (h : st.Restorable env) (E : TextEnv) (entry : LogEntry) (fired : List TriggerMatch) :
    (turnCore E entry fired st).Restorable env := by
  unfold Logmon.turnCore
  split
  · exact h.seenCore E entry
  · have hseen := h.seenCore E entry
    exact Restorable.dropOneshots fired ⟨hseen.triggers, hseen.filters⟩

/-- The built-in triggers are restorable, and there are no filters yet. -/
theorem restorable_newAnonymous (now : ℕ) : (newAnonymous now).Restorable env := by
  have hparse : ∀ {text : String} {f : ParsedFilter}, parseFilter env text = .ok f → env.parse text = .ok f := by
    intro text f h
    unfold ParseEnv.parse
    rw [h]
  refine ⟨fun t ht => ?_, fun f hf => absurd hf List.not_mem_nil⟩
  simp only [newAnonymous, TriggerManager.new, List.mem_cons, List.not_mem_nil, or_false] at ht
  rcases ht with rfl | rfl
  · exact ⟨hparse (parseFilter_errorFilter env), rfl, by decide⟩
  · exact ⟨hparse (parseFilter_panicFilter env), rfl, by decide⟩

theorem Restorable.rebind (h : st.Restorable env) (domain : DomainId) : (rebind domain st).Restorable env := by
  unfold SessionRegistry.rebind
  split
  · exact h
  · refine ⟨fun t ht => ?_, h.filters⟩
    obtain ⟨t0, ht0, rfl⟩ := List.mem_map.mp ht
    have hr := h.triggers t0 ht0
    exact ⟨hr.parses, hr.noBookmark, hr.preWindow_le⟩

/-! #### A session's own requests -/

theorem noBookmark_of_refuseBookmarkIn {parsed : ParsedFilter} (h : refuseBookmarkIn parsed = .ok ()) :
    parsed.containsBookmarkQualifier = false := by
  unfold refuseBookmarkIn at h
  split at h
  · cases h
  · simpa using ‹¬ parsed.containsBookmarkQualifier = true›

theorem le_of_refuseOversize {pre : ℕ} (h : refuseOversizePreWindow pre = .ok ()) : pre ≤ maxBufferSize := by
  unfold refuseOversizePreWindow at h
  split at h
  · cases h
  · omega

theorem noBookmark_of_refuse {filter : String} {parsed : ParsedFilter} (h : refuseBookmarkQualifier env filter = .ok ())
    (hp : env.parse filter = .ok parsed) : parsed.containsBookmarkQualifier = false := by
  unfold refuseBookmarkQualifier at h
  rw [hp] at h
  exact noBookmark_of_refuseBookmarkIn h

theorem noBookmark_of_refuseInEdit {filter : String} {parsed : ParsedFilter}
    (h : refuseBookmarkInEdit env (some filter) = .ok ()) (hp : env.parse filter = .ok parsed) :
    parsed.containsBookmarkQualifier = false := by
  unfold refuseBookmarkInEdit at h
  simp only [hp] at h
  exact noBookmark_of_refuseBookmarkIn h

theorem ok_of_bind {x : Except String Unit} {f : Unit → Except String Unit} (h : x.bind f = .ok ()) :
    x = .ok () ∧ f () = .ok () := by
  cases x with
  | error e => cases h
  | ok u => exact ⟨rfl, h⟩

/-- An edited trigger is restorable still: its filter and its pre-window are
the old ones or checked ones. -/
theorem edited_restorable {t : Trigger} (h : t.Restorable env) {e : TriggerEdit}
    (hbook : refuseBookmarkInEdit env e.filter = .ok ())
    (hpre : (match e.preWindow with | none => Except.ok () | some pre => refuseOversizePreWindow pre) = .ok ())
    {condition : Option (String × ParsedFilter)} (hc : TriggerManager.parsedFilter env.parse e = .ok condition) :
    (t.edited e condition).Restorable env := by
  have hfields : (t.edited e condition).filterString = (t.retarget condition).filterString ∧
      (t.edited e condition).condition = (t.retarget condition).condition ∧
      (t.edited e condition).preWindow = e.preWindow.getD t.preWindow := by
    unfold Trigger.edited
    cases condition <;> cases e.postWindow <;> exact ⟨rfl, rfl, rfl⟩
  obtain ⟨h1, h2, h3⟩ := hfields
  have hfilter : env.parse (t.retarget condition).filterString = .ok (t.retarget condition).condition ∧
      (t.retarget condition).condition.containsBookmarkQualifier = false := by
    unfold TriggerManager.parsedFilter at hc
    cases hf : e.filter with
    | none =>
      rw [hf] at hc
      obtain rfl := Except.ok.inj hc
      exact ⟨h.parses, h.noBookmark⟩
    | some text =>
      rw [hf] at hc hbook
      cases hp : env.parse text with
      | error e =>
        simp only [hp] at hc
        cases hc
      | ok parsed =>
        simp only [hp] at hc
        obtain rfl := Except.ok.inj hc
        exact ⟨hp, noBookmark_of_refuseInEdit hbook hp⟩
  refine ⟨?_, ?_, ?_⟩
  · rw [h1, h2]
    exact hfilter.1
  · rw [h2]
    exact hfilter.2
  · rw [h3]
    cases hpw : e.preWindow with
    | none => exact h.preWindow_le
    | some pre =>
      rw [hpw] at hpre
      exact le_of_refuseOversize hpre

/-- **A request the RPC lets through leaves what a restore accepts.** -/
theorem Restorable.own (h : st.Restorable env) {r : OwnRequest} (hr : r.refusal env = .ok ())
    {f : SessionState → Except SessionError SessionState} (hf : r.on env.parse = .ok f) {st' : SessionState}
    (hst : f st = .ok st') : st'.Restorable env := by
  cases r with
  | addTrigger spec =>
    obtain rfl := Except.ok.inj hf
    obtain ⟨hbook, hpre⟩ := ok_of_bind hr
    unfold addTrigger TriggerManager.add at hst
    cases hp : env.parse spec.filter with
    | error e =>
      rw [hp] at hst
      cases hst
    | ok condition =>
      rw [hp] at hst
      obtain rfl := Except.ok.inj hst
      refine ⟨fun t ht => ?_, h.filters⟩
      rcases List.mem_append.mp ht with ht | ht
      · exact h.triggers t ht
      · rw [List.mem_singleton.mp ht]
        exact ⟨hp, noBookmark_of_refuse hbook hp, le_of_refuseOversize hpre⟩
  | editTrigger triggerId e =>
    obtain rfl := Except.ok.inj hf
    obtain ⟨hbook, hpre⟩ := ok_of_bind hr
    unfold editTrigger at hst
    split at hst
    · cases hst
    · rename_i m hm
      obtain rfl := Except.ok.inj hst
      obtain ⟨condition, hcondition, rfl⟩ := TriggerManager.edit_ok hm
      refine ⟨fun t ht => ?_, h.filters⟩
      rcases mem_modifyFirst ht with ht | ⟨t0, ht0, rfl⟩
      · exact h.triggers t ht
      · exact edited_restorable (h.triggers t0 (List.mem_of_find?_eq_some ht0)) hbook hpre hcondition
  | removeTrigger triggerId =>
    obtain rfl := Except.ok.inj hf
    unfold removeTrigger at hst
    split at hst
    · cases hst
    · obtain rfl := Except.ok.inj hst
      exact ⟨fun t ht => h.triggers t (List.mem_of_mem_eraseP ht), h.filters⟩
  | addFilter filter description =>
    simp only [OwnRequest.on] at hf
    split at hf
    · cases hf
    · rename_i condition hp
      obtain rfl := Except.ok.inj hf
      obtain rfl := Except.ok.inj hst
      refine ⟨h.triggers, fun x hx => ?_⟩
      rcases List.mem_append.mp hx with hx | hx
      · exact h.filters x hx
      · rw [List.mem_singleton.mp hx]
        exact ⟨hp, noBookmark_of_refuse hr hp⟩
  | editFilter filterId filter description =>
    simp only [OwnRequest.on] at hf
    split at hf
    · cases hf
    · rename_i condition hcondition
      obtain rfl := Except.ok.inj hf
      unfold editFilter at hst
      split at hst
      · obtain rfl := Except.ok.inj hst
        refine ⟨h.triggers, fun x hx => ?_⟩
        rcases mem_modifyFirst hx with hx | ⟨x0, hx0, rfl⟩
        · exact h.filters x hx
        · have hold := h.filters x0 (List.mem_of_find?_eq_some hx0)
          cases filter with
          | none =>
            obtain rfl : condition = none := (Except.ok.inj hcondition).symm
            exact ⟨hold.parses, hold.noBookmark⟩
          | some text =>
            cases hp : env.parse text with
            | error e =>
              simp only [parsedText, hp] at hcondition
              cases hcondition
            | ok parsed =>
              simp only [parsedText, hp] at hcondition
              obtain rfl := Except.ok.inj hcondition
              exact ⟨hp, noBookmark_of_refuseInEdit hr hp⟩
      · cases hst
  | removeFilter filterId =>
    obtain rfl := Except.ok.inj hf
    unfold removeFilter at hst
    split at hst
    · obtain rfl := Except.ok.inj hst
      exact ⟨h.triggers, fun x hx => h.filters x (List.mem_of_mem_eraseP hx)⟩
    · cases hst

end SessionState

/-! #### The registry -/

/-- Every session can be restored as it is. -/
def SessionRegistry.Restorable (env : ParseEnv) (s : SessionRegistry) : Prop :=
  ∀ id st, s.get? id = some st → st.Restorable env

namespace SessionRegistry.Restorable

variable {s : SessionRegistry} {now : ℕ}

theorem eachCore : s.Restorable env ↔ s.EachCore fun _ c => c.Restorable env := by
  unfold SessionRegistry.Restorable EachCore
  simp only [SessionState.restorable_core]

theorem insert (h : s.Restorable env) {id : SessionId} {st : SessionState} (hst : st.Restorable env) :
    (s.insert id st).Restorable env := by
  intro id' st' hget
  rw [get?_insert] at hget
  split at hget
  · rw [← Option.some.inj hget]
    exact hst
  · exact h id' st' hget

theorem erase (h : s.Restorable env) (id : SessionId) : (s.erase id).Restorable env := by
  intro id' st' hget
  rw [get?_erase] at hget
  split at hget
  · cases hget
  · exact h id' st' hget

theorem modify (h : s.Restorable env) {id : SessionId} {f : SessionState → SessionState}
    (hf : ∀ st, s.get? id = some st → (f st).Restorable env) : (s.modify id f).Restorable env := by
  intro id' st' hget
  rw [get?_modify] at hget
  split at hget
  · rename_i he
    obtain ⟨st, hst, rfl⟩ := Option.map_eq_some_iff.mp hget
    exact hf st (he ▸ hst)
  · exact h id' st' hget

/-- **Every operation the RPC lets through keeps it.** -/
theorem after (h : s.Restorable env) {op : SessionOp} (hop : DaemonAct.admitted env (.session now op)) :
    (s.after env.parse now op).Restorable env := by
  have hkeep : ∀ {id : SessionId} {f : SessionState → SessionState},
      (∀ st, (f st).triggers = st.triggers ∧ (f st).filters = st.filters) → (s.modify id f).Restorable env := by
    intro id f hf
    refine h.modify fun st hst => ?_
    obtain ⟨h1, h2⟩ := hf st
    have hr := h id st hst
    exact ⟨h1 ▸ hr.triggers, h2 ▸ hr.filters⟩
  have hnew : ∀ name : SessionName, (SessionState.newNamed name now).Restorable env := by
    intro name
    have := @SessionState.restorable_newAnonymous env now
    exact ⟨this.triggers, this.filters⟩
  unfold SessionRegistry.after
  split
  swap
  · exact h
  · rename_i s1 hok
    cases effect_of_apply hok with
    | createAnonymous uuid => exact h.insert (SessionState.restorable_newAnonymous now)
    | createNamed name _ _ => exact h.insert (hnew name)
    | claimNew name _ _ => exact h.insert (hnew name)
    | claimOld _ _ => exact hkeep fun _ => ⟨rfl, rfl⟩
    | reconnect _ _ => exact hkeep fun _ => ⟨rfl, rfl⟩
    | disconnectAnonymous uuid => exact h.erase _
    | disconnectNamed name => exact hkeep fun _ => ⟨rfl, rfl⟩
    | renameSame name => exact h
    | rename _ hst _ _ =>
      have hr := h _ _ hst
      exact ((h.erase _).erase _).insert ⟨hr.triggers, hr.filters⟩
    | notDisposed id ttl => exact h
    | disposed ttl _ _ => exact h.erase _
    | dropSession _ _ => exact h.erase _
    | setDomain id domain => exact h.modify fun st hst => (h id st hst).rebind domain
    | setClientInfo id info => exact hkeep fun _ => ⟨rfl, rfl⟩
    | drainNotifications id => exact hkeep fun _ => ⟨rfl, rfl⟩
    | own hf hst hfst => exact h.modify fun _ _ => (h _ _ hst).own hop hf hfst

end SessionRegistry.Restorable

/-- **Every action of the daemon keeps it.** -/
theorem restorable_step {E : TextEnv} {d : Daemon} {a : DaemonAct} (h : d.sessions.Restorable env)
    (ha : a.admitted env) : (d.step E env.parse a).sessions.Restorable env := by
  cases a with
  | arrive domain entry =>
    have hcore := SessionRegistry.Restorable.eachCore.mp h
    exact SessionRegistry.Restorable.eachCore.mpr (hcore.processEntry fun fired _ c hc => hc.turnCore E _ fired)
  | span domain span =>
    have hcore := SessionRegistry.Restorable.eachCore.mp h
    exact SessionRegistry.Restorable.eachCore.mpr
      (hcore.processSpan fun _ c hc => SessionState.Restorable.dropOneshots _ hc)
  | clear domain => exact h
  | resync domain => exact h
  | session now op => exact h.after ha

/-! ### What a restore makes of a record -/

theorem carriesBookmark_of_parse {filter : String} {parsed : ParsedFilter} (h : env.parse filter = .ok parsed) :
    carriesBookmark env filter = parsed.containsBookmarkQualifier := by
  unfold carriesBookmark
  rw [h]

/-- A trigger as a restore makes it. -/
def PersistedTrigger.trigger (pt : PersistedTrigger) (id : ℕ) (condition : ParsedFilter) : Trigger :=
  ⟨id, condition, pt.filter, pt.preWindow, pt.postWindow, pt.notifyContext, pt.description, pt.oneshot, 0, 0⟩

/-- A record is skipped, or its trigger added, with what it checked. -/
theorem restoreTrigger_cases (m : TriggerManager) (pt : PersistedTrigger) :
    restoreTrigger env m pt = m ∨ ∃ condition, (pt.trigger m.nextId condition).Restorable env ∧
      (restoreTrigger env m pt).triggers = m.triggers ++ [pt.trigger m.nextId condition] := by
  unfold restoreTrigger
  split
  · exact .inl rfl
  · rename_i hpre
    split
    · exact .inl rfl
    · rename_i hbook
      unfold TriggerManager.add
      dsimp only
      cases hp : env.parse pt.filter with
      | error e => exact .inl rfl
      | ok condition =>
        rw [carriesBookmark_of_parse hp] at hbook
        have hnone : condition.containsBookmarkQualifier = false := by simpa using hbook
        exact .inr ⟨condition, ⟨hp, hnone, Nat.not_lt.mp hpre⟩, rfl⟩

/-- What passes the checks is added. -/
theorem restoreTrigger_of {t : Trigger} (h : t.Restorable env) (m : TriggerManager) :
    (restoreTrigger env m t.persisted).triggers = m.triggers ++ [t.persisted.trigger m.nextId t.condition] := by
  have hpre : ¬ t.persisted.preWindow > maxBufferSize := Nat.not_lt.mpr h.preWindow_le
  have hbook : ¬ carriesBookmark env t.persisted.filter = true := by
    rw [show t.persisted.filter = t.filterString from rfl, carriesBookmark_of_parse h.parses, h.noBookmark]
    exact Bool.false_ne_true
  have hp : env.parse t.persisted.filter = .ok t.condition := h.parses
  unfold restoreTrigger TriggerManager.add
  rw [if_neg hpre, if_neg hbook]
  simp only [hp]
  rfl

theorem restoreFilter_cases (st : SessionState) (pf : PersistedFilter) :
    restoreFilter env st pf = st ∨ ∃ condition, env.parse pf.filter = .ok condition ∧
      condition.containsBookmarkQualifier = false ∧
      restoreFilter env st pf = st.addFilter pf.filter condition pf.description := by
  unfold restoreFilter
  split
  · exact .inl rfl
  · rename_i hbook
    cases hp : env.parse pf.filter with
    | error e => exact .inl rfl
    | ok condition =>
      rw [carriesBookmark_of_parse hp] at hbook
      exact .inr ⟨condition, rfl, by simpa using hbook, rfl⟩

theorem restoreFilter_of {f : BufferFilterEntry} (h : f.Restorable env) (st : SessionState) :
    restoreFilter env st f.persisted = st.addFilter f.filterString f.condition f.description := by
  have hbook : ¬ carriesBookmark env f.persisted.filter = true := by
    rw [show f.persisted.filter = f.filterString from rfl, carriesBookmark_of_parse h.parses, h.noBookmark]
    exact Bool.false_ne_true
  have hp : env.parse f.persisted.filter = .ok f.condition := h.parses
  unfold restoreFilter
  rw [if_neg hbook]
  simp only [hp]
  rfl

/-- Restored filters leave the triggers and the client's description alone. -/
theorem restoreFilters_triggers : ∀ (fs : List PersistedFilter) (st : SessionState),
    (fs.foldl (restoreFilter env) st).triggers = st.triggers ∧ (fs.foldl (restoreFilter env) st).clientInfo = st.clientInfo
  | [], _ => ⟨rfl, rfl⟩
  | pf :: fs, st => by
    obtain ⟨h1, h2⟩ := restoreFilters_triggers fs (restoreFilter env st pf)
    rw [List.foldl_cons, h1, h2]
    rcases @restoreFilter_cases env st pf with heq | ⟨_, _, _, heq⟩ <;> rw [heq] <;> exact ⟨rfl, rfl⟩

theorem restored_triggers (name : SessionName) (persisted : PersistedSession) (now : ℕ) :
    (SessionState.restored env name persisted now).triggers =
      persisted.triggers.foldl (restoreTrigger env) .cleared :=
  (restoreFilters_triggers persisted.filters _).1

theorem restored_clientInfo (name : SessionName) (persisted : PersistedSession) (now : ℕ) :
    (SessionState.restored env name persisted now).clientInfo = persisted.clientInfo := by
  have hnone := (@restoreFilters_triggers env persisted.filters
    { SessionState.newNamed name now with
      connected := false
      triggers := persisted.triggers.foldl (restoreTrigger env) .cleared }).2
  calc (SessionState.restored env name persisted now).clientInfo
      = persisted.clientInfo.or none := congrArg (Option.or persisted.clientInfo) hnone
    _ = persisted.clientInfo := Option.or_none

/-- What a restore leaves passes its checks. -/
theorem SessionState.restorable_restored (name : SessionName) (persisted : PersistedSession) (now : ℕ) :
    (SessionState.restored env name persisted now).Restorable env := by
  have htriggers : ∀ (pts : List PersistedTrigger) (m : TriggerManager), (∀ t ∈ m.triggers, t.Restorable env) →
      ∀ t ∈ (pts.foldl (restoreTrigger env) m).triggers, t.Restorable env := by
    intro pts
    induction pts with
    | nil => exact fun _ h => h
    | cons pt pts ih =>
      intro m hm
      refine ih _ ?_
      rcases @restoreTrigger_cases env m pt with heq | ⟨condition, hr, heq⟩
      · rw [heq]
        exact hm
      · intro t ht
        rw [heq] at ht
        rcases List.mem_append.mp ht with ht | ht
        · exact hm t ht
        · rw [List.mem_singleton.mp ht]
          exact hr
  have hfilters : ∀ (pfs : List PersistedFilter) (st : SessionState), (∀ f ∈ st.filters, f.Restorable env) →
      ∀ f ∈ (pfs.foldl (restoreFilter env) st).filters, f.Restorable env := by
    intro pfs
    induction pfs with
    | nil => exact fun _ h => h
    | cons pf pfs ih =>
      intro st hst
      refine ih _ ?_
      rcases @restoreFilter_cases env st pf with heq | ⟨condition, hp, hbook, heq⟩
      · rw [heq]
        exact hst
      · intro f hf
        rw [heq] at hf
        rcases List.mem_append.mp hf with hf | hf
        · exact hst f hf
        · rw [List.mem_singleton.mp hf]
          exact ⟨hp, hbook⟩
  refine ⟨fun t ht => ?_, fun f hf => ?_⟩
  · rw [restored_triggers] at ht
    exact htriggers persisted.triggers .cleared (fun t ht => absurd ht List.not_mem_nil) t ht
  · exact hfilters _ _ (fun f hf => absurd hf List.not_mem_nil) f hf

/-- A trigger without its id, its counter and its debounce state. -/
def Trigger.definition (t : Trigger) : Trigger := { t with id := 0, matchCount := 0, postRemaining := 0 }

/-- A filter without its id. -/
def BufferFilterEntry.definition (f : BufferFilterEntry) : BufferFilterEntry := { f with id := 0 }

theorem restoreTriggers_definition : ∀ (ts : List Trigger) (m : TriggerManager), (∀ t ∈ ts, t.Restorable env) →
    ((ts.map Trigger.persisted).foldl (restoreTrigger env) m).triggers.map Trigger.definition =
      m.triggers.map Trigger.definition ++ ts.map Trigger.definition
  | [], m, _ => by simp
  | t :: ts, m, h => by
    rw [List.map_cons, List.foldl_cons, restoreTriggers_definition ts _ fun t' ht' => h t' (List.mem_cons_of_mem _ ht'),
      restoreTrigger_of (h t List.mem_cons_self), List.map_append, List.append_assoc]
    rfl

theorem restoreFilters_definition : ∀ (fs : List BufferFilterEntry) (st : SessionState), (∀ f ∈ fs, f.Restorable env) →
    ((fs.map BufferFilterEntry.persisted).foldl (restoreFilter env) st).filters.map BufferFilterEntry.definition =
      st.filters.map BufferFilterEntry.definition ++ fs.map BufferFilterEntry.definition
  | [], st, _ => by simp
  | f :: fs, st, h => by
    rw [List.map_cons, List.foldl_cons, restoreFilters_definition fs _ fun f' hf' => h f' (List.mem_cons_of_mem _ hf'),
      restoreFilter_of (h f List.mem_cons_self)]
    simp only [SessionState.addFilter, List.map_append, List.append_assoc]
    rfl

/-- **A session is restored as it was.** -/
theorem restored_definition {st : SessionState} (h : st.Restorable env) (name : SessionName)
    (bookmarks : List PersistedBookmark) (now : ℕ) :
    (SessionState.restored env name (st.persisted bookmarks) now).triggers.triggers.map Trigger.definition =
      st.triggers.triggers.map Trigger.definition ∧
    (SessionState.restored env name (st.persisted bookmarks) now).filters.map BufferFilterEntry.definition =
      st.filters.map BufferFilterEntry.definition ∧
    (SessionState.restored env name (st.persisted bookmarks) now).clientInfo = st.clientInfo := by
  refine ⟨?_, restoreFilters_definition _ _ h.filters, restored_clientInfo name _ now⟩
  rw [restored_triggers]
  exact restoreTriggers_definition _ _ h.triggers

/-! ### The whole registry -/

/-- **The snapshot has each named session's record**, and no other. -/
theorem get?_snapshot (s : SessionRegistry) (bookmarks : BookmarkStore) (name : SessionName) :
    (s.snapshotNamedForPersistence bookmarks).get? name =
      (s.get? (.named name)).map fun st => st.persisted (bookmarks.bookmarksOf name) := by
  have hfold : ∀ (l : List (SessionId × SessionState)) (out : FMap SessionName PersistedSession),
      (l.map Prod.fst).Nodup →
      (l.foldl (fun out q =>
        match q.1 with
        | .anonymous _ => out
        | .named n => out.insert n (q.2.persisted (bookmarks.bookmarksOf n))) out).get? name =
        match l.find? fun q => q.1 = .named name with
        | some q => some (q.2.persisted (bookmarks.bookmarksOf name))
        | none => out.get? name := by
    intro l
    induction l with
    | nil => exact fun _ _ => rfl
    | cons q l ih =>
      intro out hnodup
      obtain ⟨hq, hnodup⟩ := List.nodup_cons.mp hnodup
      rw [List.foldl_cons, ih _ hnodup]
      obtain ⟨id, st⟩ := q
      cases id with
      | anonymous uuid => rw [List.find?_cons_of_neg (by simp)]
      | named n =>
        by_cases hn : n = name
        · have hnone : l.find? (fun q => q.1 = .named name) = none := by
            refine List.find?_eq_none.mpr fun q hq' he => hq ?_
            exact List.mem_map.mpr ⟨q, hq', (of_decide_eq_true he).trans (by rw [hn])⟩
          rw [hnone, List.find?_cons_of_pos (by simp [hn])]
          dsimp only
          rw [hn, FMap.get?_insert, if_pos rfl]
        · rw [List.find?_cons_of_neg (by simpa using hn)]
          cases l.find? (fun q => q.1 = .named name) with
          | some q' => rfl
          | none =>
            dsimp only
            rw [FMap.get?_insert, if_neg (fun he => hn he.symm)]
  unfold snapshotNamedForPersistence
  rw [hfold s.sessions.entries ∅ s.sessions.nodup]
  unfold SessionRegistry.get? FMap.get?
  cases s.sessions.entries.find? (fun q => q.1 = .named name) <;> rfl

section RestoreAll

variable {now : ℕ} {saved : List (SessionName × PersistedSession)}

/-- Sessions are restored one by one, and bookmarks put one by one. -/
theorem restoreAll_eq (x : SessionRegistry × BookmarkStore) (saved : List (SessionName × PersistedSession)) :
    saved.foldl (restoreNamed env now) x =
      (saved.foldl (fun s q => s.insert (.named q.1) (SessionState.restored env q.1 q.2 now)) x.1,
       (saved.flatMap fun q => q.2.bookmarks.map fun pb => pb.restored q.1).foldl BookmarkStore.put x.2) := by
  induction saved generalizing x with
  | nil => rfl
  | cons q saved ih =>
    rw [List.foldl_cons, ih, List.foldl_cons, List.flatMap_cons, List.foldl_append, List.foldl_map]
    rfl

/-- Each record becomes its session. -/
theorem get?_restoreAll (hnodup : (saved.map Prod.fst).Nodup) {name : SessionName} {persisted : PersistedSession}
    (hmem : (name, persisted) ∈ saved) :
    (restoreAll env now saved).1.get? (.named name) = some (SessionState.restored env name persisted now) := by
  unfold restoreAll
  rw [restoreAll_eq]
  generalize SessionRegistry.new = s
  induction saved generalizing s with
  | nil => exact absurd hmem List.not_mem_nil
  | cons q saved ih =>
    obtain ⟨hq, hnodup⟩ := List.nodup_cons.mp hnodup
    rcases List.mem_cons.mp hmem with rfl | hmem
    · have hkeep : ∀ (l : List (SessionName × PersistedSession)) (s : SessionRegistry), name ∉ l.map Prod.fst →
          (l.foldl (fun s q => s.insert (.named q.1) (SessionState.restored env q.1 q.2 now)) s).get? (.named name) =
            s.get? (.named name) := by
        intro l
        induction l with
        | nil => exact fun _ _ => rfl
        | cons q l ih =>
          intro s hn
          have hne : SessionId.named name ≠ .named q.1 := fun he => hn (SessionId.named.inj he ▸ List.mem_cons_self)
          rw [List.foldl_cons, ih _ fun h => hn (List.mem_cons_of_mem _ h), get?_insert, if_neg hne]
      rw [List.foldl_cons]
      exact (hkeep saved _ hq).trans (by rw [get?_insert, if_pos rfl])
    · rw [List.foldl_cons]
      exact ih hnodup hmem _

/-- No other session appears. -/
theorem mem_of_get?_restoreAll {id : SessionId} {st : SessionState} (h : (restoreAll env now saved).1.get? id = some st) :
    ∃ q ∈ saved, id = .named q.1 ∧ st = SessionState.restored env q.1 q.2 now := by
  unfold restoreAll at h
  rw [restoreAll_eq] at h
  have hfold : ∀ (l : List (SessionName × PersistedSession)) (s : SessionRegistry),
      (l.foldl (fun s q => s.insert (.named q.1) (SessionState.restored env q.1 q.2 now)) s).get? id = some st →
      s.get? id = some st ∨ ∃ q ∈ l, id = .named q.1 ∧ st = SessionState.restored env q.1 q.2 now := by
    intro l
    induction l with
    | nil => exact fun _ h => .inl h
    | cons q l ih =>
      intro s h
      rcases ih _ h with h | ⟨q', hq', hid, hst⟩
      · rw [get?_insert] at h
        split at h
        · rename_i hid
          exact .inr ⟨q, List.mem_cons_self, hid, (Option.some.inj h).symm⟩
        · exact .inl h
      · exact .inr ⟨q', List.mem_cons_of_mem _ hq', hid, hst⟩
  rcases hfold saved .new h with h | h
  · cases h
  · exact h

/-- A restored registry can be restored again. -/
theorem restorable_restoreAll (now : ℕ) (saved : List (SessionName × PersistedSession)) :
    (restoreAll env now saved).1.Restorable env := by
  intro id st hst
  obtain ⟨q, -, -, rfl⟩ := mem_of_get?_restoreAll hst
  exact SessionState.restorable_restored q.1 q.2 now

end RestoreAll

/-! ### Bookmarks -/

namespace BookmarkStore

variable {s s' : BookmarkStore} {session : SessionName}

/-- Bookmarks put one by one, where a key has one bookmark among them. -/
theorem get?_foldl_put {bs : List Bookmark}
    (hinj : ∀ a ∈ bs, ∀ b ∈ bs, a.qualifiedName = b.qualifiedName → a = b) (k : String) (b : Bookmark) :
    ∀ s : BookmarkStore, (bs.foldl put s).get? k = some b ↔
      (b ∈ bs ∧ b.qualifiedName = k) ∨ ((∀ a ∈ bs, a.qualifiedName ≠ k) ∧ s.get? k = some b) := by
  induction bs with
  | nil => simp
  | cons a bs ih =>
    intro s
    rw [List.foldl_cons, ih fun x hx y hy => hinj x (List.mem_cons_of_mem _ hx) y (List.mem_cons_of_mem _ hy), get?_put]
    constructor
    · rintro (⟨hb, hk⟩ | ⟨hall, hget⟩)
      · exact .inl ⟨List.mem_cons_of_mem _ hb, hk⟩
      · split at hget
        · rename_i hk
          obtain rfl := Option.some.inj hget
          exact .inl ⟨List.mem_cons_self, hk.symm⟩
        · rename_i hk
          refine .inr ⟨fun x hx => ?_, hget⟩
          rcases List.mem_cons.mp hx with rfl | hx
          · exact fun he => hk he.symm
          · exact hall x hx
    · rintro (⟨hb, hk⟩ | ⟨hall, hget⟩)
      · rcases List.mem_cons.mp hb with rfl | hb
        · by_cases hlater : ∃ x ∈ bs, x.qualifiedName = k
          · obtain ⟨x, hx, hxk⟩ := hlater
            obtain rfl := hinj b List.mem_cons_self x (List.mem_cons_of_mem _ hx) (hk.trans hxk.symm)
            exact .inl ⟨hx, hk⟩
          · refine .inr ⟨fun x hx he => hlater ⟨x, hx, he⟩, ?_⟩
            rw [if_pos hk.symm]
        · exact .inl ⟨hb, hk⟩
      · refine .inr ⟨fun x hx => hall x (List.mem_cons_of_mem _ hx), ?_⟩
        rw [if_neg fun he => hall a List.mem_cons_self he.symm]
        exact hget

theorem mem_list {b : Bookmark} : b ∈ s.list ↔ s.get? b.qualifiedName = some b := by
  unfold list
  rw [List.mem_insertionSort, List.mem_map]
  constructor
  · rintro ⟨⟨k, b'⟩, hmem, rfl⟩
    have hget := FMap.mem_iff.mp hmem
    exact s.keyed k b' hget ▸ hget
  · intro h
    exact ⟨(b.qualifiedName, b), FMap.mem_iff.mpr h, rfl⟩

theorem mem_bookmarksOf {pb : PersistedBookmark} : pb ∈ s.bookmarksOf session ↔
    ∃ b, s.get? (qualify session pb.name) = some b ∧ b.persisted = pb := by
  unfold bookmarksOf
  simp only [List.mem_map, List.mem_filter, mem_list, decide_eq_true_eq]
  constructor
  · rintro ⟨b, ⟨hget, rfl⟩, rfl⟩
    exact ⟨b, b.named ▸ hget, rfl⟩
  · rintro ⟨b, hget, rfl⟩
    obtain ⟨hs, hn⟩ := session_of_get? hget
    refine ⟨b, ⟨?_, hs⟩, rfl⟩
    rw [b.named, hs]
    exact hget

theorem listOrder_trans {a b c : Bookmark} (h : a.listOrder b) (h' : b.listOrder c) : a.listOrder c := by
  unfold Bookmark.listOrder at *
  rcases h with h | ⟨h1, h2⟩
  · left
    rcases h' with h' | ⟨h1', -⟩ <;> omega
  · rcases h' with h' | ⟨h1', h2'⟩
    · left
      omega
    · exact .inr ⟨h1.trans h1', h2.trans h2'⟩

theorem listOrder_total (a b : Bookmark) : a.listOrder b ∨ b.listOrder a := by
  unfold Bookmark.listOrder
  rcases Nat.lt_trichotomy a.seq b.seq with h | h | h
  · exact .inr (.inl h)
  · rcases le_total a.qualifiedName b.qualifiedName with h' | h'
    · exact .inl (.inr ⟨h, h'⟩)
    · exact .inr (.inr ⟨h.symm, h'⟩)
  · exact .inl (.inl h)

/-- The order of a session's bucket, in the records' own terms. -/
def bucketOrder (session : SessionName) (a b : PersistedBookmark) : Prop :=
  b.seq < a.seq ∨ a.seq = b.seq ∧ qualify session a.name ≤ qualify session b.name

theorem pairwise_bookmarksOf (s : BookmarkStore) (session : SessionName) :
    (s.bookmarksOf session).Pairwise (bucketOrder session) := by
  have : Std.Total Bookmark.listOrder := ⟨listOrder_total⟩
  have : IsTrans Bookmark Bookmark.listOrder := ⟨fun _ _ _ => listOrder_trans⟩
  have hlist : s.list.Pairwise Bookmark.listOrder := List.pairwise_insertionSort _ _
  unfold bookmarksOf
  refine List.pairwise_map.mpr ((hlist.filter _).imp_of_mem fun ha hb hab => ?_)
  have ha' := of_decide_eq_true (List.mem_filter.mp ha).2
  have hb' := of_decide_eq_true (List.mem_filter.mp hb).2
  unfold Bookmark.listOrder at hab
  rw [Bookmark.named, Bookmark.named, ha', hb'] at hab
  exact hab

theorem nodup_bookmarksOf (s : BookmarkStore) (session : SessionName) : (s.bookmarksOf session).Nodup := by
  have hentries : (s.bookmarks.entries.map Prod.snd).Nodup := by
    refine List.Nodup.of_map Bookmark.qualifiedName ?_
    have hkeys : (s.bookmarks.entries.map Prod.snd).map Bookmark.qualifiedName = s.bookmarks.entries.map Prod.fst := by
      rw [List.map_map]
      exact List.map_congr_left fun q hq => (s.keyed q.1 q.2 (FMap.mem_iff.mp hq)).symm
    rw [hkeys]
    exact s.bookmarks.nodup
  have hlist : s.list.Nodup := (List.perm_insertionSort _ _).nodup_iff.mpr hentries
  unfold bookmarksOf
  refine (hlist.filter _).map_on fun a ha b hb hab => ?_
  obtain ⟨ha, ha'⟩ := List.mem_filter.mp ha
  obtain ⟨hb, hb'⟩ := List.mem_filter.mp hb
  have hkey : a.qualifiedName = b.qualifiedName := by
    have hname : a.name = b.name := congrArg PersistedBookmark.name hab
    rw [a.named, b.named, of_decide_eq_true ha', of_decide_eq_true hb', hname]
  have hget := mem_list.mp ha
  rw [hkey, mem_list.mp hb] at hget
  exact (Option.some.inj hget).symm

/-- **Two stores with the same bookmarks of a session have the same bucket.** -/
theorem bookmarksOf_eq (h : ∀ name, (s.get? (qualify session name)).map Bookmark.persisted =
    (s'.get? (qualify session name)).map Bookmark.persisted) : s.bookmarksOf session = s'.bookmarksOf session := by
  have hmem : ∀ pb, pb ∈ s.bookmarksOf session ↔ pb ∈ s'.bookmarksOf session := by
    intro pb
    rw [mem_bookmarksOf, mem_bookmarksOf, ← Option.map_eq_some_iff, ← Option.map_eq_some_iff, h]
  have hperm := (List.perm_ext_iff_of_nodup (nodup_bookmarksOf s session) (nodup_bookmarksOf s' session)).mpr hmem
  refine hperm.eq_of_pairwise (fun a b ha hb hab hba => ?_) (pairwise_bookmarksOf s session)
    (pairwise_bookmarksOf s' session)
  have hname : a.name = b.name := by
    unfold bucketOrder at hab hba
    have hle : qualify session a.name = qualify session b.name := by
      rcases hab with hab | ⟨h1, h2⟩ <;> rcases hba with hba | ⟨h3, h4⟩
      · omega
      · omega
      · omega
      · exact le_antisymm h2 h4
    exact (qualify_inj hle).2
  -- a key has one bookmark
  obtain ⟨x, hx, rfl⟩ := mem_bookmarksOf.mp ha
  obtain ⟨y, hy, rfl⟩ := mem_bookmarksOf.mp ((hmem b).mpr hb)
  rw [show y.persisted.name = x.persisted.name from hname.symm, hx] at hy
  rw [Option.some.inj hy]

end BookmarkStore

/-! ### The restart -/

/-- The daemon after a restart on a state file. -/
def Daemon.restarted (env : ParseEnv) (now : ℕ) (saved : List (SessionName × PersistedSession))
    (pipelines : DomainId → LogPipeline) : Daemon :=
  ⟨pipelines, (restoreAll env now saved).1, fun _ => []⟩

/-- The daemons that runs reach whose requests the RPC let through. -/
def Daemon.Served (E : TextEnv) (env : ParseEnv) : Daemon → Daemon → Prop :=
  Reach (fun d a => some (d.step E env.parse a)) fun _ a => a.admitted env

variable {s : SessionRegistry} {bookmarks : BookmarkStore} {order : List (SessionName × PersistedSession)} {now : ℕ}

/-- The records of a snapshot, in any order. -/
theorem mem_snapshot_order (horder : order.Perm (s.snapshotNamedForPersistence bookmarks).entries)
    {name : SessionName} {persisted : PersistedSession} : (name, persisted) ∈ order ↔
      ∃ st, s.get? (.named name) = some st ∧ st.persisted (bookmarks.bookmarksOf name) = persisted := by
  rw [horder.mem_iff, FMap.mem_iff, get?_snapshot, Option.map_eq_some_iff]

/-- **A registered session gets its bookmarks back.** -/
theorem restored_bookmarks (horder : order.Perm (s.snapshotNamedForPersistence bookmarks).entries)
    {name : SessionName} {st : SessionState} (hst : s.get? (.named name) = some st) (bookmark : String) :
    ((restoreAll env now order).2.get? (qualify name bookmark)).map Bookmark.persisted =
      (bookmarks.get? (qualify name bookmark)).map Bookmark.persisted := by
  set bs := order.flatMap fun q => q.2.bookmarks.map fun pb => pb.restored q.1 with hbs
  have hmem : ∀ b, b ∈ bs ↔ ∃ name st x, s.get? (.named name) = some st ∧
      bookmarks.get? (qualify name x.name) = some x ∧ b = x.persisted.restored name := by
    intro b
    rw [hbs, List.mem_flatMap]
    constructor
    · rintro ⟨⟨name, p⟩, hq, hb⟩
      obtain ⟨st, hst, rfl⟩ := (mem_snapshot_order horder).mp hq
      obtain ⟨pb, hpb, rfl⟩ := List.mem_map.mp hb
      obtain ⟨x, hx, rfl⟩ := BookmarkStore.mem_bookmarksOf.mp hpb
      exact ⟨name, st, x, hst, hx, rfl⟩
    · rintro ⟨name, st, x, hst, hx, rfl⟩
      refine ⟨(name, st.persisted (bookmarks.bookmarksOf name)), (mem_snapshot_order horder).mpr ⟨st, hst, rfl⟩, ?_⟩
      exact List.mem_map_of_mem (BookmarkStore.mem_bookmarksOf.mpr ⟨x, hx, rfl⟩)
  have hinj : ∀ a ∈ bs, ∀ b ∈ bs, a.qualifiedName = b.qualifiedName → a = b := by
    intro a ha b hb hab
    obtain ⟨n, -, x, -, hx, rfl⟩ := (hmem a).mp ha
    obtain ⟨m, -, y, -, hy, rfl⟩ := (hmem b).mp hb
    obtain ⟨hsession, hname⟩ := qualify_inj hab
    obtain rfl : n = m := hsession
    rw [show y.name = x.name from hname.symm, hx] at hy
    rw [Option.some.inj hy]
  unfold restoreAll
  rw [restoreAll_eq]
  show (Option.map Bookmark.persisted ((bs.foldl BookmarkStore.put BookmarkStore.new).get? (qualify name bookmark))) = _
  ext pb
  rw [Option.map_eq_some_iff, Option.map_eq_some_iff]
  constructor
  · rintro ⟨b, hget, rfl⟩
    rcases (BookmarkStore.get?_foldl_put hinj _ _ _).mp hget with ⟨hb, hkey⟩ | ⟨-, hget⟩
    · obtain ⟨n, -, x, -, hx, rfl⟩ := (hmem b).mp hb
      obtain ⟨hsession, hname⟩ := qualify_inj hkey
      obtain rfl : n = name := hsession
      exact ⟨x, (show x.name = bookmark from hname) ▸ hx, rfl⟩
    · cases hget
  · rintro ⟨x, hx, rfl⟩
    obtain ⟨-, rfl⟩ := BookmarkStore.session_of_get? hx
    exact ⟨x.persisted.restored name, (BookmarkStore.get?_foldl_put hinj _ _ _).mpr
      (.inl ⟨(hmem _).mpr ⟨name, st, x, hst, hx, rfl⟩, rfl⟩), rfl⟩

/-- A session's record is made of its definitions. -/
theorem persisted_congr {st st' : SessionState} {bookmarks : List PersistedBookmark}
    (htriggers : st'.triggers.triggers.map Trigger.definition = st.triggers.triggers.map Trigger.definition)
    (hfilters : st'.filters.map BufferFilterEntry.definition = st.filters.map BufferFilterEntry.definition)
    (hinfo : st'.clientInfo = st.clientInfo) : st'.persisted bookmarks = st.persisted bookmarks := by
  have h1 : st'.triggers.triggers.map Trigger.persisted = st.triggers.triggers.map Trigger.persisted := by
    have := congrArg (List.map Trigger.persisted) htriggers
    rw [List.map_map, List.map_map] at this
    exact this
  have h2 : st'.filters.map BufferFilterEntry.persisted = st.filters.map BufferFilterEntry.persisted := by
    have := congrArg (List.map BufferFilterEntry.persisted) hfilters
    rw [List.map_map, List.map_map] at this
    exact this
  unfold SessionState.persisted
  rw [h1, h2, hinfo]

/-- **A restart preserves the named sessions.** After any run of the daemon,
started on any state file, whose requests the RPC let through, and for any
bookmarks of the default domain: the snapshot, restored in any order, gives
each named session its triggers and filters in the same order, its client's
description and its bookmarks, and the snapshot taken again is the same. -/
theorem restart_preserves (E : TextEnv) (env : ParseEnv) (start : ℕ) (saved : List (SessionName × PersistedSession))
    (pipelines : DomainId → LogPipeline) {d : Daemon}
    (hr : Daemon.Served E env (.restarted env start saved pipelines) d)
    (bookmarks : BookmarkStore) {order : List (SessionName × PersistedSession)}
    (horder : order.Perm (d.sessions.snapshotNamedForPersistence bookmarks).entries) (now : ℕ) :
    (∀ name st, d.sessions.get? (.named name) = some st → ∃ st',
      (restoreAll env now order).1.get? (.named name) = some st' ∧
      st'.triggers.triggers.map Trigger.definition = st.triggers.triggers.map Trigger.definition ∧
      st'.filters.map BufferFilterEntry.definition = st.filters.map BufferFilterEntry.definition ∧
      st'.clientInfo = st.clientInfo ∧
      ∀ bookmark, ((restoreAll env now order).2.get? (qualify name bookmark)).map Bookmark.persisted =
        (bookmarks.get? (qualify name bookmark)).map Bookmark.persisted) ∧
    ∀ name, ((restoreAll env now order).1.snapshotNamedForPersistence (restoreAll env now order).2).get? name =
      (d.sessions.snapshotNamedForPersistence bookmarks).get? name := by
  have hrestorable : d.sessions.Restorable env :=
    hr.invariant (I := fun d => d.sessions.Restorable env) (restorable_restoreAll start saved) fun d a d' h ha hs => by
      obtain rfl := Option.some.inj hs
      exact restorable_step h ha
  have hnodup : (order.map Prod.fst).Nodup :=
    (horder.map Prod.fst).nodup_iff.mpr (d.sessions.snapshotNamedForPersistence bookmarks).nodup
  have hsession : ∀ name st, d.sessions.get? (.named name) = some st →
      (restoreAll env now order).1.get? (.named name) =
        some (SessionState.restored env name (st.persisted (bookmarks.bookmarksOf name)) now) := by
    intro name st hst
    exact get?_restoreAll hnodup ((mem_snapshot_order horder).mpr ⟨st, hst, rfl⟩)
  refine ⟨fun name st hst => ?_, fun name => ?_⟩
  · obtain ⟨h1, h2, h3⟩ := restored_definition (hrestorable _ st hst) name (bookmarks.bookmarksOf name) now
    exact ⟨_, hsession name st hst, h1, h2, h3, restored_bookmarks horder hst⟩
  · rw [get?_snapshot, get?_snapshot]
    cases hst : d.sessions.get? (.named name) with
    | none =>
      cases hst' : (restoreAll env now order).1.get? (.named name) with
      | none => rfl
      | some st' =>
        obtain ⟨⟨n, p⟩, hq, hid, -⟩ := mem_of_get?_restoreAll hst'
        obtain ⟨st, hst2, -⟩ := (mem_snapshot_order horder).mp hq
        rw [← hid, hst] at hst2
        cases hst2
    | some st =>
      rw [hsession name st hst]
      obtain ⟨h1, h2, h3⟩ := restored_definition (hrestorable _ st hst) name (bookmarks.bookmarksOf name) now
      have hbucket : (restoreAll env now order).2.bookmarksOf name = bookmarks.bookmarksOf name :=
        BookmarkStore.bookmarksOf_eq (restored_bookmarks horder hst)
      rw [Option.map_some, Option.map_some, hbucket, persisted_congr h1 h2 h3]

namespace Daemon

/-- A named session, whose filter stores nothing. -/
def configured : Daemon :=
  ((restarted .ascii 0 [] fun _ => .newWithSeq 4 four_le_u64Max 0).step .ascii ParseEnv.ascii.parse
    (.session 1 (.createNamed "a"))).step .ascii ParseEnv.ascii.parse
      (.session 2 (.own (.named ⟨"a", noSlash_a⟩) (.addFilter "NONE" none)))

/-- It has a bookmark. -/
def oneBookmark : BookmarkStore := BookmarkStore.new.put ⟨"a/mark", "mark", ⟨"a", noSlash_a⟩, 7, 0, none, 3, 7, rfl⟩

end Daemon

theorem restart_preserves_configured : ∃ st',
    (restoreAll .ascii 9 (Daemon.configured.sessions.snapshotNamedForPersistence Daemon.oneBookmark).entries).1.get?
      (.named ⟨"a", noSlash_a⟩) = some st' ∧
    st'.filters.map BufferFilterEntry.definition = [⟨0, .none, "NONE", none⟩] := by
  have h1 : Daemon.Served .ascii .ascii (.restarted .ascii 0 [] fun _ => .newWithSeq 4 four_le_u64Max 0) _ :=
    .next (a := .session 1 (.createNamed "a")) .start trivial rfl
  have h2 : Daemon.Served .ascii .ascii (.restarted .ascii 0 [] fun _ => .newWithSeq 4 four_le_u64Max 0) Daemon.configured :=
    .next (a := .session 2 (.own (.named ⟨"a", noSlash_a⟩) (.addFilter "NONE" none))) h1 rfl rfl
  obtain ⟨st', hst', -, hfilters, -⟩ := (restart_preserves .ascii .ascii 0 [] _ h2 Daemon.oneBookmark
    (List.Perm.refl _) 9).1 ⟨"a", noSlash_a⟩ _ rfl
  exact ⟨st', hst', hfilters⟩

end Logmon
