/-
# Domains are isolated

Two runs of the daemon that do the same in one domain and what they like in
the others. The domains share one registry of sessions, so the argument is
over the sessions bound to the domain (`SessionRegistry.bound`): an action
elsewhere leaves that list as it is, and everything the domain's records meet
is read off it.

A session takes its trigger definitions and filters along when it binds to
the domain, and a name can be taken elsewhere. Operations whose effect can
hang on that (`SessionOp.crosses`) are the same in both runs when they leave
the domain with sessions of the same ids and definitions. The windows of these
sessions need no such care: a binding closes them.

Key definitions: `SessionState.defs`, `SessionOp.touches`, `SessionOp.enters`,
`DaemonAct.Outside`, `TwoRuns`.
Key theorems: `bound_after_outside`, `after_own`, `domains_isolated`.
-/
import Logmon.Daemon.System

namespace Logmon

open Lib SessionRegistry

namespace SessionRegistry

variable {s s' : SessionRegistry} {domain : DomainId} {id : SessionId} {st : SessionState} {now : ℕ}

/-! ### The list of bound sessions under each operation -/

/-- The list without one session. -/
def dropId (id : SessionId) (l : List (SessionId × SessionState)) : List (SessionId × SessionState) :=
  l.filter fun q => q.1 ≠ id

theorem dropId_of_not_mem {l : List (SessionId × SessionState)} (h : id ∉ l.map Prod.fst) : dropId id l = l := by
  refine List.filter_eq_self.mpr fun q hq => ?_
  have hne : q.1 ≠ id := fun he => h (he ▸ List.mem_map_of_mem hq)
  simpa using hne

theorem bound_erase (s : SessionRegistry) (id : SessionId) (domain : DomainId) :
    (s.erase id).bound domain = dropId id (s.bound domain) := by
  unfold bound dropId erase FMap.erase FMap.retain
  rw [List.filter_map, List.filter_filter, List.filter_filter]
  congr 1
  refine List.filter_congr fun q _ => ?_
  simp [Bool.and_comm]

theorem bound_insert (s : SessionRegistry) (id : SessionId) (st : SessionState) (domain : DomainId) :
    (s.insert id st).bound domain =
      if st.domain = domain then (id, st.core) :: dropId id (s.bound domain) else dropId id (s.bound domain) := by
  have hrest : (((s.sessions.erase id).entries.filter fun q => q.2.domain = domain).map fun q => (q.1, q.2.core)) =
      dropId id (s.bound domain) := bound_erase s id domain
  unfold bound insert FMap.insert
  simp only [List.filter_cons]
  split
  · rename_i hd
    rw [if_pos (by simpa using hd), List.map_cons, hrest]
    rfl
  · rename_i hd
    rw [if_neg (by simpa using hd), hrest]
    rfl

theorem rebind_domain (domain : DomainId) (st : SessionState) : (rebind domain st).domain = domain := by
  unfold rebind
  split
  · assumption
  · rfl

/-- Bound to another domain, a session leaves. -/
theorem bound_setDomain_ne {other : DomainId} (hne : other ≠ domain) (s : SessionRegistry) (id : SessionId) :
    (s.setDomain id other).bound domain = dropId id (s.bound domain) := by
  unfold bound dropId setDomain modify FMap.modify
  rw [List.filter_map, List.filter_map, List.filter_filter, List.map_map]
  have hkept : (s.sessions.entries.filter ((fun q : SessionId × SessionState => decide (q.2.domain = domain)) ∘
      fun q => if q.1 = id then (q.1, rebind other q.2) else q)) =
      s.sessions.entries.filter fun q =>
        ((fun q : SessionId × SessionState => decide (q.1 ≠ id)) ∘ fun q => (q.1, q.2.core)) q &&
          decide (q.2.domain = domain) := by
    refine List.filter_congr fun q _ => ?_
    simp only [Function.comp]
    by_cases he : q.1 = id
    · simp [he, rebind_domain, hne]
    · simp [he]
  rw [hkept]
  refine List.map_congr_left fun q hq => ?_
  have hne' : q.1 ≠ id := by
    have := (List.mem_filter.mp hq).2
    simp only [Function.comp, Bool.and_eq_true, decide_eq_true_eq] at this
    exact this.1
  simp [hne']

end SessionRegistry

/-! ### Operations elsewhere -/

namespace SessionOp

/-- The sessions an operation may change, remove or replace. -/
def touches : SessionOp → List SessionId
  | .createAnonymous uuid => [.anonymous uuid]
  | .createNamed _ => []
  | .claimNamed name => ((SessionName.of? name).map SessionId.named).toList
  | .reconnect id => [id]
  | .disconnect id => [id]
  | .rename old name => old :: ((SessionName.of? name).map SessionId.named).toList
  | .disposeIfExpired id _ => [id]
  | .dropSession name => ((SessionName.of? name).map SessionId.named).toList
  | .setDomain id _ => [id]
  | .setClientInfo id _ => [id]
  | .drainNotifications id => [id]
  | .own id _ => [id]

/-- The domain a new or rebound session is bound to. -/
def enters (s : SessionRegistry) : SessionOp → Option DomainId
  | .createAnonymous _ => some .default
  | .createNamed _ => some .default
  | .claimNamed name =>
    if ((SessionName.of? name).bind fun n => s.get? (.named n)).isSome then none else some .default
  | .setDomain _ domain => some domain
  | _ => none

end SessionOp

theorem SessionName.of?_text (name : SessionName) : SessionName.of? name.text = some name := by
  unfold SessionName.of?
  rw [dif_neg name.noSlash]

namespace SessionRegistry

variable {parseFilter : String → Except String ParsedFilter} {s s' : SessionRegistry} {domain : DomainId}
  {id : SessionId} {st : SessionState} {now : ℕ}

theorem bound_modify_of_not_mem (h : id ∉ (s.bound domain).map Prod.fst) {f : SessionState → SessionState}
    (hf : ∀ st, (f st).domain = st.domain) : (s.modify id f).bound domain = s.bound domain := by
  have hmod : (s.modify id f).bound domain =
      atId id (fun c => ((s.get? id).map fun st => (f st).core).getD c) (s.bound domain) := by
    refine bound_modify fun st hst => ⟨hf st, ?_⟩
    rw [hst]
    rfl
  rw [hmod, atId_of_not_mem h]

theorem mem_touches_named {name : SessionName} : SessionId.named name ∈
    ((SessionName.of? name.text).map SessionId.named).toList := by
  rw [SessionName.of?_text]
  exact List.mem_cons_self

/-- **An operation on sessions bound elsewhere leaves a domain's sessions
alone.** -/
theorem bound_after_outside {op : SessionOp} (htouch : ∀ id ∈ op.touches, id ∉ (s.bound domain).map Prod.fst)
    (henter : op.enters s ≠ some domain) : (s.after parseFilter now op).bound domain = s.bound domain := by
  have hnew : ∀ (id : SessionId) (st : SessionState), id ∉ (s.bound domain).map Prod.fst → st.domain ≠ domain →
      (s.insert id st).bound domain = s.bound domain := by
    intro id st hid hst
    rw [bound_insert, if_neg hst, dropId_of_not_mem hid]
  have hnone : ∀ id, s.get? id = none → id ∉ (s.bound domain).map Prod.fst := by
    intro id hid hmem
    obtain ⟨st, hst, -⟩ := mem_bound_fst.mp hmem
    rw [hid] at hst
    cases hst
  unfold after
  split
  swap
  · rfl
  · rename_i s1 hok
    cases effect_of_apply hok with
    | createAnonymous uuid =>
      exact hnew _ _ (htouch _ List.mem_cons_self) fun h => henter (congrArg some h)
    | createNamed name hheld hfree =>
      exact hnew _ _ (hnone _ hfree) fun h => henter (congrArg some h)
    | claimNew name hheld hfree =>
      refine hnew _ _ (hnone _ hfree) fun h => henter ?_
      simp only [SessionOp.enters, SessionName.of?_text, Option.bind_some, hfree]
      exact congrArg some h
    | claimOld hst hconn => exact bound_modify_of_not_mem (htouch _ mem_touches_named) fun _ => rfl
    | reconnect hst hconn => exact bound_modify_of_not_mem (htouch _ List.mem_cons_self) fun _ => rfl
    | disconnectAnonymous uuid => rw [bound_erase, dropId_of_not_mem (htouch _ List.mem_cons_self)]
    | disconnectNamed name => exact bound_modify_of_not_mem (htouch _ List.mem_cons_self) fun _ => rfl
    | renameSame name => rfl
    | @rename old name st hold hst hanon hex =>
      have hold' := htouch _ List.mem_cons_self
      have hname := htouch (.named name) (List.mem_cons_of_mem _ mem_touches_named)
      have hd : st.domain ≠ domain := fun hd => hold' (mem_bound_fst.mpr ⟨st, hst, hd⟩)
      rw [bound_insert, if_neg hd, bound_erase, bound_erase, dropId_of_not_mem hname, dropId_of_not_mem hold',
        dropId_of_not_mem hname]
    | notDisposed id ttl => rfl
    | disposed ttl hst hconn => rw [bound_erase, dropId_of_not_mem (htouch _ List.mem_cons_self)]
    | dropSession hst hconn => rw [bound_erase, dropId_of_not_mem (htouch _ mem_touches_named)]
    | setDomain id other =>
      have hne : other ≠ domain := fun h => henter (congrArg some h)
      show (s.setDomain id other).bound domain = _
      rw [bound_setDomain_ne hne, dropId_of_not_mem (htouch _ List.mem_cons_self)]
    | setClientInfo id info => exact bound_modify_of_not_mem (htouch _ List.mem_cons_self) fun _ => rfl
    | drainNotifications id => exact bound_modify_of_not_mem (htouch _ List.mem_cons_self) fun _ => rfl
    | @own id r f st st' hf hst hfst =>
      have hkeep : st'.domain = st.domain := by rw [own_keeps hf hfst]
      have hid := htouch id List.mem_cons_self
      have hmod : (s.modify id fun _ => st').bound domain = atId id (fun _ => st'.core) (s.bound domain) := by
        refine bound_modify fun st1 hst1 => ⟨?_, rfl⟩
        rw [hst] at hst1
        rw [← Option.some.inj hst1, hkeep]
      rw [hmod, atId_of_not_mem hid]

end SessionRegistry

/-! ### A session's own requests -/

theorem Trigger.edited_core (t : Trigger) (e : TriggerEdit) (condition : Option (String × ParsedFilter)) :
    (t.core.edited e condition).core = (t.edited e condition).core := by
  unfold Trigger.edited
  cases condition <;> cases e.postWindow <;> rfl

theorem TriggerManager.get?_core (m : TriggerManager) (id : ℕ) : m.core.get? id = (m.get? id).map Trigger.core := by
  unfold TriggerManager.get? TriggerManager.core
  rw [List.find?_map]
  rfl

theorem TriggerManager.edit_core (parseFilter : String → Except String ParsedFilter) (m : TriggerManager) (id : ℕ)
    (e : TriggerEdit) :
    (m.core.edit parseFilter id e).map TriggerManager.core = (m.edit parseFilter id e).map TriggerManager.core := by
  unfold TriggerManager.edit
  cases TriggerManager.parsedFilter parseFilter e with
  | error msg => rfl
  | ok condition =>
    dsimp only
    rw [TriggerManager.get?_core]
    cases m.get? id with
    | none => rfl
    | some t =>
      refine congrArg Except.ok ?_
      have hthrough := modifyFirst_map (p := fun t : Trigger => decide (t.id = id))
        (q := fun t : Trigger => decide (t.id = id)) (f := fun t => t.edited e condition)
        (h := fun t => (t.edited e condition).core) (g := Trigger.core) (fun _ => rfl)
        fun t => t.edited_core e condition
      have hedit : (modifyFirst (fun t : Trigger => decide (t.id = id)) (fun t => t.edited e condition)
          (m.triggers.map Trigger.core)).map Trigger.core =
          (modifyFirst (fun t => decide (t.id = id)) (fun t => t.edited e condition) m.triggers).map Trigger.core := by
        rw [← hthrough, ← hthrough, List.map_map]
        rfl
      exact congrArg (fun triggers => (⟨triggers, m.nextId⟩ : TriggerManager)) hedit

namespace SessionState

variable {parseFilter : String → Except String ParsedFilter} {st st' : SessionState}

theorem core_set {m m' : TriggerManager} {filters filters' : List BufferFilterEntry} {n n' : ℕ}
    (h : st.core = st'.core) (hm : m.core = m'.core) (hfilters : filters = filters') (hn : n = n') :
    ({ st with triggers := m, filters, nextFilterId := n } : SessionState).core =
      ({ st' with triggers := m', filters := filters', nextFilterId := n' } : SessionState).core := by
  subst hfilters hn
  have hset := congrArg (fun c : SessionState => { c with triggers := m.core, filters, nextFilterId := n }) h
  calc ({ st with triggers := m, filters, nextFilterId := n } : SessionState).core
      = { st.core with triggers := m.core, filters, nextFilterId := n } := rfl
    _ = { st'.core with triggers := m'.core, filters, nextFilterId := n } := by rw [← hm]; exact hset
    _ = _ := rfl

/-- **A request makes the same of two sessions that an entry cannot tell
apart.** -/
theorem own_core {r : OwnRequest} {f : SessionState → Except SessionError SessionState} (hf : r.on parseFilter = .ok f)
    (h : st.core = st'.core) : (f st).map SessionState.core = (f st').map SessionState.core := by
  have htriggers : st.triggers.core = st'.triggers.core := by
    have := congrArg SessionState.triggers h
    exact this
  have hfilters : st.filters = st'.filters := by
    have := congrArg SessionState.filters h
    exact this
  have hnext : st.nextFilterId = st'.nextFilterId := by
    have := congrArg SessionState.nextFilterId h
    exact this
  have hlist : st.triggers.triggers.map Trigger.core = st'.triggers.triggers.map Trigger.core :=
    congrArg TriggerManager.triggers htriggers
  have hid : st.triggers.nextId = st'.triggers.nextId := by
    have := congrArg TriggerManager.nextId htriggers
    exact this
  have hget : ∀ id, (st.triggers.get? id).isSome = (st'.triggers.get? id).isSome := by
    intro id
    have := congrArg (fun m => (TriggerManager.get? m id).isSome) htriggers
    simpa [TriggerManager.get?_core] using this
  cases r with
  | addTrigger spec =>
    obtain rfl := Except.ok.inj hf
    unfold addTrigger TriggerManager.add
    cases parseFilter spec.filter with
    | error e => rfl
    | ok condition =>
      refine congrArg Except.ok (core_set h ?_ hfilters hnext)
      simp only [TriggerManager.core, List.map_append, hlist, hid]
  | editTrigger triggerId e =>
    obtain rfl := Except.ok.inj hf
    have hedit : (st.triggers.edit parseFilter triggerId e).map TriggerManager.core =
        (st'.triggers.edit parseFilter triggerId e).map TriggerManager.core := by
      rw [← TriggerManager.edit_core _ st.triggers, ← TriggerManager.edit_core _ st'.triggers, htriggers]
    unfold editTrigger
    cases h1 : st.triggers.edit parseFilter triggerId e with
    | error e1 =>
      cases h2 : st'.triggers.edit parseFilter triggerId e with
      | error e2 =>
        rw [h1, h2] at hedit
        rw [Except.error.inj hedit]
      | ok m2 =>
        rw [h1, h2] at hedit
        cases hedit
    | ok m1 =>
      cases h2 : st'.triggers.edit parseFilter triggerId e with
      | error e2 =>
        rw [h1, h2] at hedit
        cases hedit
      | ok m2 =>
        rw [h1, h2] at hedit
        exact congrArg Except.ok (core_set h (Except.ok.inj hedit) hfilters hnext)
  | removeTrigger triggerId =>
    obtain rfl := Except.ok.inj hf
    have hsome := hget triggerId
    unfold removeTrigger
    cases h1 : st.triggers.get? triggerId with
    | none =>
      rw [h1, Option.isSome_none, eq_comm, Option.isSome_eq_false_iff, Option.isNone_iff_eq_none] at hsome
      rw [hsome]
    | some t =>
      rw [h1, Option.isSome_some, eq_comm, Option.isSome_iff_exists] at hsome
      obtain ⟨t', ht'⟩ := hsome
      rw [ht']
      refine congrArg Except.ok (core_set h ?_ hfilters hnext)
      rw [TriggerManager.remove_core, TriggerManager.remove_core, htriggers]
  | addFilter filter description =>
    simp only [OwnRequest.on] at hf
    split at hf
    · cases hf
    · obtain rfl := Except.ok.inj hf
      refine congrArg Except.ok (core_set h htriggers ?_ ?_)
      · rw [hfilters, hnext]
      · rw [hnext]
  | editFilter filterId filter description =>
    simp only [OwnRequest.on] at hf
    split at hf
    · cases hf
    · obtain rfl := Except.ok.inj hf
      unfold editFilter
      rw [hfilters]
      split
      · exact congrArg Except.ok (core_set h htriggers rfl hnext)
      · rfl
  | removeFilter filterId =>
    obtain rfl := Except.ok.inj hf
    unfold removeFilter
    rw [hfilters]
    split
    · exact congrArg Except.ok (core_set h htriggers rfl hnext)
    · rfl

end SessionState

/-! ### The same operation in both runs -/

/-- The effect on a domain's sessions can hang on sessions bound elsewhere: a
name can be taken there, a session comes from there, or its last contact was
there. -/
def SessionOp.crosses (domain : DomainId) : SessionOp → Bool
  | .createNamed _ => true
  | .claimNamed _ => true
  | .rename _ _ => true
  | .disposeIfExpired _ _ => true
  | .setDomain _ d => d = domain
  | _ => false

namespace SessionRegistry

variable {parseFilter : String → Except String ParsedFilter} {s s' : SessionRegistry} {domain : DomainId}
  {id : SessionId} {st : SessionState} {now : ℕ}

/-- Where the one session an operation is about is bound elsewhere, nothing
happens in either registry. -/
theorem bound_after_alike_of_outside {op : SessionOp} (h : s.bound domain = s'.bound domain)
    (htouch : ∀ id ∈ op.touches, id ∉ (s.bound domain).map Prod.fst) (henter : op.enters s ≠ some domain)
    (henter' : op.enters s' ≠ some domain) :
    (s.after parseFilter now op).bound domain = (s'.after parseFilter now op).bound domain := by
  rw [bound_after_outside htouch henter, bound_after_outside (fun id hid => h ▸ htouch id hid) henter', h]

theorem after_reconnect (hst : s.get? id = some st) :
    s.after parseFilter now (.reconnect id) = if st.connected then s else
      match id with
      | .anonymous _ => s
      | .named _ => s.modify id fun st => { st with connected := true, lastSeen := now } := by
  simp only [after, apply, reconnect, hst]
  cases st.connected <;> cases id <;> rfl

theorem after_dropSession {name : SessionName} (hst : s.get? (.named name) = some st) :
    s.after parseFilter now (.dropSession name.text) = if st.connected then s else s.erase (.named name) := by
  simp only [after, apply, dropSession, SessionName.of?_text, hst]
  cases st.connected <;> rfl

theorem after_own {r : OwnRequest} {f : SessionState → Except SessionError SessionState} (hf : r.on parseFilter = .ok f)
    (hst : s.get? id = some st) :
    s.after parseFilter now (.own id r) = match f st with
      | .error _ => s
      | .ok st' => s.modify id fun _ => st' := by
  simp only [after, apply, hf, request, hst]
  cases f st <;> rfl

/-- **An operation does the same to a domain's sessions in both registries**,
when its effect on them does not hang on sessions bound elsewhere. -/
theorem bound_after_alike {op : SessionOp} (h : s.bound domain = s'.bound domain) (hop : op.crosses domain = false) :
    (s.after parseFilter now op).bound domain = (s'.after parseFilter now op).bound domain := by
  have hconnected : ∀ {st st' : SessionState}, st'.core = st.core → st'.connected = st.connected := by
    intro st st' hcore
    have := congrArg SessionState.connected hcore
    exact this
  cases op with
  | createAnonymous uuid =>
    show (s.insert _ _).bound domain = (s'.insert _ _).bound domain
    rw [bound_insert, bound_insert, h]
  | createNamed name => cases hop
  | claimNamed name => cases hop
  | rename old name => cases hop
  | disposeIfExpired id ttl => cases hop
  | reconnect id =>
    by_cases hid : id ∈ (s.bound domain).map Prod.fst
    · obtain ⟨st, hst, hd⟩ := mem_bound_fst.mp hid
      obtain ⟨st', hst', -, hcore⟩ := get?_of_alike h hst hd
      have hmod : ∀ r : SessionRegistry, (r.modify id fun st => { st with connected := true, lastSeen := now }).bound
          domain = atId id (fun c => { c with connected := true }) (r.bound domain) :=
        fun r => bound_modify fun _ _ => ⟨rfl, rfl⟩
      rw [after_reconnect hst, after_reconnect hst', hconnected hcore]
      cases st.connected with
      | true => exact h
      | false =>
        cases id with
        | anonymous uuid => exact h
        | named name =>
          show (s.modify _ _).bound domain = (s'.modify _ _).bound domain
          rw [hmod, hmod, h]
    · exact bound_after_alike_of_outside h (fun id' hid' => by rw [List.mem_singleton.mp hid']; exact hid)
        (fun he => by cases he) fun he => by cases he
  | disconnect id =>
    cases id with
    | anonymous uuid =>
      show (s.erase _).bound domain = (s'.erase _).bound domain
      rw [bound_erase, bound_erase, h]
    | named name =>
      have hmod : ∀ r : SessionRegistry, (r.modify (.named name) fun st =>
          { st with connected := false, lastSeen := now }).bound domain =
          atId (.named name) (fun c => { c with connected := false }) (r.bound domain) :=
        fun r => bound_modify fun _ _ => ⟨rfl, rfl⟩
      show (s.modify _ _).bound domain = (s'.modify _ _).bound domain
      rw [hmod, hmod, h]
  | dropSession text =>
    cases hname : SessionName.of? text with
    | none =>
      have hrefused : ∀ r : SessionRegistry, r.after parseFilter now (.dropSession text) = r := by
        intro r
        simp only [after, apply, dropSession, hname]
      rw [hrefused, hrefused, h]
    | some name =>
      obtain rfl : name.text = text := by
        unfold SessionName.of? at hname
        split at hname
        · cases hname
        · rw [← Option.some.inj hname]
      by_cases hid : SessionId.named name ∈ (s.bound domain).map Prod.fst
      · obtain ⟨st, hst, hd⟩ := mem_bound_fst.mp hid
        obtain ⟨st', hst', -, hcore⟩ := get?_of_alike h hst hd
        rw [after_dropSession hst, after_dropSession hst', hconnected hcore]
        cases st.connected with
        | true => exact h
        | false =>
          show (s.erase _).bound domain = (s'.erase _).bound domain
          rw [bound_erase, bound_erase, h]
      · refine bound_after_alike_of_outside h (fun id' hid' => ?_) (fun he => by cases he) fun he => by cases he
        simp only [SessionOp.touches, SessionName.of?_text, Option.map_some, Option.toList_some,
          List.mem_singleton] at hid'
        rw [hid']
        exact hid
  | setDomain id other =>
    have hne : other ≠ domain := by
      intro he
      simp [SessionOp.crosses, he] at hop
    show (s.setDomain id other).bound domain = (s'.setDomain id other).bound domain
    rw [bound_setDomain_ne hne, bound_setDomain_ne hne, h]
  | setClientInfo id info =>
    have hmod : ∀ r : SessionRegistry, (r.setClientInfo id info).bound domain = atId id (fun c => c) (r.bound domain) :=
      fun r => bound_modify fun _ _ => ⟨rfl, rfl⟩
    show (s.setClientInfo id info).bound domain = (s'.setClientInfo id info).bound domain
    rw [hmod, hmod, h]
  | drainNotifications id =>
    have hmod : ∀ r : SessionRegistry, (r.drainNotifications id).bound domain = atId id (fun c => c) (r.bound domain) :=
      fun r => bound_modify fun _ _ => ⟨rfl, rfl⟩
    show (s.drainNotifications id).bound domain = (s'.drainNotifications id).bound domain
    rw [hmod, hmod, h]
  | own id r =>
    cases hf : r.on parseFilter with
    | error e =>
      have hrefused : ∀ s : SessionRegistry, s.after parseFilter now (.own id r) = s := by
        intro s
        simp only [after, apply, hf]
      rw [hrefused, hrefused, h]
    | ok f =>
      by_cases hid : id ∈ (s.bound domain).map Prod.fst
      · obtain ⟨st, hst, hd⟩ := mem_bound_fst.mp hid
        obtain ⟨st', hst', hd', hcore⟩ := get?_of_alike h hst hd
        have hsame := SessionState.own_core hf hcore.symm
        have hset : ∀ {r : SessionRegistry} {x y : SessionState}, r.get? id = some x → f x = .ok y →
            (r.modify id fun _ => y).bound domain = atId id (fun _ => y.core) (r.bound domain) := by
          intro r x y hx hy
          refine bound_modify fun x' hx' => ⟨?_, rfl⟩
          rw [hx] at hx'
          rw [← Option.some.inj hx', own_keeps hf hy]
        rw [after_own hf hst, after_own hf hst']
        cases h1 : f st with
        | error e1 =>
          cases h2 : f st' with
          | error e2 => exact h
          | ok st2 =>
            rw [h1, h2] at hsame
            cases hsame
        | ok st1 =>
          cases h2 : f st' with
          | error e2 =>
            rw [h1, h2] at hsame
            cases hsame
          | ok st2 =>
            rw [h1, h2] at hsame
            have hcore' : st1.core = st2.core := Except.ok.inj hsame
            show (s.modify _ _).bound domain = (s'.modify _ _).bound domain
            rw [hset hst h1, hset hst' h2, hcore', h]
      · exact bound_after_alike_of_outside h (fun id' hid' => by rw [List.mem_singleton.mp hid']; exact hid)
          (fun he => by cases he) fun he => by cases he

end SessionRegistry

/-! ### Windows -/

namespace SessionState

/-- What a session takes along when it binds elsewhere: everything but its
windows. -/
def defs (c : SessionState) : SessionState :=
  { c with postWindowRemaining := 0, triggers := c.triggers.resetPostWindows }

/-- Its windows: the one for storage and each trigger's own. -/
def windows (c : SessionState) : ℕ × List ℕ := (c.postWindowRemaining, c.triggers.triggers.map Trigger.postRemaining)

/-- Definitions and windows make the session. -/
theorem eq_of_defs_of_windows {c c' : SessionState} (hd : c.defs = c'.defs) (hw : c.windows = c'.windows) : c = c' := by
  obtain ⟨hpost, hlist⟩ := Prod.mk.inj hw
  have htriggers : c.triggers.triggers = c'.triggers.triggers := by
    have hreset : (c.triggers.triggers.map fun t => { t with postRemaining := 0 }) =
        c'.triggers.triggers.map fun t => { t with postRemaining := 0 } := by
      have := congrArg (fun c : SessionState => c.triggers.triggers) hd
      exact this
    have hinj : Function.Injective fun t : Trigger => (({ t with postRemaining := 0 } : Trigger), t.postRemaining) := by
      rintro ⟨⟩ ⟨⟩ hpair
      simp only [Prod.mk.injEq, Trigger.mk.injEq] at hpair ⊢
      tauto
    refine List.map_injective_iff.mpr hinj ?_
    rw [← List.zip_map', ← List.zip_map', hreset, hlist]
  have hnext : c.triggers.nextId = c'.triggers.nextId := by
    have := congrArg (fun c : SessionState => c.triggers.nextId) hd
    exact this
  have hmanager : c.triggers = c'.triggers := by
    obtain ⟨_, ⟨_, _⟩⟩ := c
    obtain ⟨_, ⟨_, _⟩⟩ := c'
    exact congrArg₂ TriggerManager.mk htriggers hnext
  calc c = { c.defs with postWindowRemaining := c.postWindowRemaining, triggers := c.triggers } := rfl
    _ = { c'.defs with postWindowRemaining := c'.postWindowRemaining, triggers := c'.triggers } := by
        rw [hd, hpost, hmanager]
    _ = c' := rfl

end SessionState

namespace SessionRegistry

variable {parseFilter : String → Except String ParsedFilter} {s s' : SessionRegistry} {domain : DomainId}
  {id : SessionId} {st : SessionState} {now : ℕ}

/-- The domain's sessions have the same ids, in the same order, and the same
definitions. -/
def SameDefs (domain : DomainId) (s s' : SessionRegistry) : Prop :=
  (s.bound domain).map (fun q => (q.1, q.2.defs)) = (s'.bound domain).map fun q => (q.1, q.2.defs)

theorem SameDefs.ids (h : SameDefs domain s s') : (s.bound domain).map Prod.fst = (s'.bound domain).map Prod.fst := by
  have := congrArg (List.map Prod.fst) h
  rw [List.map_map, List.map_map] at this
  exact this

theorem eq_of_map_eq {α β : Type} {g : α → β} : ∀ {l l' : List α}, l.map g = l'.map g →
    (∀ a ∈ l, ∀ b ∈ l', g a = g b → a = b) → l = l'
  | [], [], _, _ => rfl
  | [], _ :: _, h, _ => nomatch h
  | _ :: _, [], h, _ => nomatch h
  | a :: l, b :: l', h, hinj => by
    obtain ⟨hab, hrest⟩ := List.cons.inj h
    rw [hinj a List.mem_cons_self b List.mem_cons_self hab, eq_of_map_eq hrest fun a ha b hb =>
      hinj a (List.mem_cons_of_mem _ ha) b (List.mem_cons_of_mem _ hb)]

/-- Sessions with the same definitions are the same where each has the windows
it had, or is new to the domain with none. -/
theorem bound_eq_of_sameDefs {r r' : SessionRegistry} (h : s.bound domain = s'.bound domain)
    (hsame : SameDefs domain r r')
    (hr : ∀ q ∈ r.bound domain, (∃ c, (q.1, c) ∈ s.bound domain ∧ q.2.windows = c.windows) ∨
      q.1 ∉ (s.bound domain).map Prod.fst ∧ q.2 = q.2.defs)
    (hr' : ∀ q ∈ r'.bound domain, (∃ c, (q.1, c) ∈ s'.bound domain ∧ q.2.windows = c.windows) ∨
      q.1 ∉ (s'.bound domain).map Prod.fst ∧ q.2 = q.2.defs) :
    r.bound domain = r'.bound domain := by
  refine eq_of_map_eq hsame fun q hq q' hq' hqq => ?_
  obtain ⟨hid, hdefs⟩ := Prod.mk.inj hqq
  refine Prod.ext hid ?_
  rcases hr q hq with ⟨c, hc, hw⟩ | ⟨hout, hfresh⟩
  · rcases hr' q' hq' with ⟨c', hc', hw'⟩ | ⟨hout', -⟩
    · rw [← h, ← hid] at hc'
      obtain ⟨x, hx, -, hxc⟩ := mem_bound.mp hc
      obtain ⟨x', hx', -, hxc'⟩ := mem_bound.mp hc'
      rw [hx] at hx'
      obtain rfl := Option.some.inj hx'
      exact SessionState.eq_of_defs_of_windows hdefs (by rw [hw, hw', ← hxc, ← hxc'])
    · rw [← h, ← hid] at hout'
      exact absurd (List.mem_map_of_mem (f := Prod.fst) hc) hout'
  · rcases hr' q' hq' with ⟨c', hc', -⟩ | ⟨-, hfresh'⟩
    · rw [← h, ← hid] at hc'
      exact absurd (List.mem_map_of_mem (f := Prod.fst) hc') hout
    · rw [hfresh, hfresh', hdefs]

theorem mem_dropId {l : List (SessionId × SessionState)} {q : SessionId × SessionState} (h : q ∈ dropId id l) : q ∈ l :=
  (List.mem_filter.mp h).1

/-- A session that is in the domain after an operation was there with these
windows, or comes with none. -/
theorem windows_after {op : SessionOp} (hop : ∀ old name, op ≠ .rename old name)
    (hcross : op.crosses domain = true) {q : SessionId × SessionState}
    (hq : q ∈ (s.after parseFilter now op).bound domain) :
    (∃ c, (q.1, c) ∈ s.bound domain ∧ q.2.windows = c.windows) ∨
      q.1 ∉ (s.bound domain).map Prod.fst ∧ q.2 = q.2.defs := by
  have hnew : ∀ {name : SessionName}, s.get? (.named name) = none →
      q ∈ (s.insert (.named name) (.newNamed name now)).bound domain →
      (∃ c, (q.1, c) ∈ s.bound domain ∧ q.2.windows = c.windows) ∨
        q.1 ∉ (s.bound domain).map Prod.fst ∧ q.2 = q.2.defs := by
    intro name hfree hq
    rw [bound_insert] at hq
    split at hq
    · rcases List.mem_cons.mp hq with rfl | hq
      · refine .inr ⟨fun hmem => ?_, rfl⟩
        obtain ⟨st, hst, -⟩ := mem_bound_fst.mp hmem
        rw [hfree] at hst
        cases hst
      · exact .inl ⟨q.2, mem_dropId hq, rfl⟩
    · exact .inl ⟨q.2, mem_dropId hq, rfl⟩
  unfold after at hq
  split at hq
  swap
  · exact .inl ⟨q.2, hq, rfl⟩
  · rename_i s1 hok
    cases effect_of_apply hok with
    | createNamed name hheld hfree => exact hnew hfree hq
    | claimNew name hheld hfree => exact hnew hfree hq
    | @claimOld name st hst hconn =>
      obtain ⟨st1, hst1, hd, hcore⟩ := mem_bound.mp (show (q.1, q.2) ∈ _ from hq)
      rw [get?_modify] at hst1
      split at hst1
      · obtain ⟨st0, hst0, rfl⟩ := Option.map_eq_some_iff.mp hst1
        refine .inl ⟨st0.core, mem_bound.mpr ⟨st0, hst0, hd, rfl⟩, ?_⟩
        rw [← hcore]
        rfl
      · exact .inl ⟨q.2, mem_bound.mpr ⟨st1, hst1, hd, hcore⟩, rfl⟩
    | renameSame name => exact absurd rfl (hop _ _)
    | rename => exact absurd rfl (hop _ _)
    | notDisposed id ttl => exact .inl ⟨q.2, hq, rfl⟩
    | disposed ttl hst hconn =>
      rw [bound_erase] at hq
      exact .inl ⟨q.2, mem_dropId hq, rfl⟩
    | setDomain id other =>
      obtain rfl : other = domain := by simpa [SessionOp.crosses] using hcross
      obtain ⟨st1, hst1, hd, hcore⟩ := mem_bound.mp (show (q.1, q.2) ∈ _ from hq)
      rw [get?_modify] at hst1
      split at hst1
      · obtain ⟨st0, hst0, rfl⟩ := Option.map_eq_some_iff.mp hst1
        unfold rebind at hcore
        split at hcore
        · rename_i hd0
          exact .inl ⟨q.2, mem_bound.mpr ⟨st0, hst0, hd0, hcore⟩, rfl⟩
        · rename_i hd0
          -- the rebinding has closed every window
          refine .inr ⟨fun hmem => ?_, ?_⟩
          · obtain ⟨st2, hst2, hd2⟩ := mem_bound_fst.mp hmem
            rw [hst0] at hst2
            exact hd0 (Option.some.inj hst2 ▸ hd2)
          · rw [← hcore]
            simp only [SessionState.core, SessionState.defs, TriggerManager.core, TriggerManager.resetPostWindows,
              List.map_map]
            rfl
      · exact .inl ⟨q.2, mem_bound.mpr ⟨st1, hst1, hd, hcore⟩, rfl⟩
    | _ => simp [SessionOp.crosses] at hcross

theorem after_rename (s : SessionRegistry) (old : SessionId) (text : String) :
    s.after parseFilter now (.rename old text) = s ∨
      ∃ (name : SessionName) (st : SessionState), name.text = text ∧ old ≠ .named name ∧ s.get? old = some st ∧
        s.after parseFilter now (.rename old text) =
          ((s.erase (.named name)).erase old).insert (.named name) { st with name := some text, lastSeen := now } := by
  unfold after
  split
  swap
  · exact .inl rfl
  · rename_i s1 hok
    cases effect_of_apply hok with
    | renameSame name => exact .inl rfl
    | @rename _ name st hold hst _ _ => exact .inr ⟨name, st, rfl, hold, hst, rfl⟩

/-- A rename goes the same way in both registries, or is of a session bound
elsewhere in both. -/
theorem bound_after_rename {old : SessionId} {text : String} (h : s.bound domain = s'.bound domain)
    (hsame : SameDefs domain (s.after parseFilter now (.rename old text)) (s'.after parseFilter now (.rename old text))) :
    (s.after parseFilter now (.rename old text)).bound domain =
      (s'.after parseFilter now (.rename old text)).bound domain := by
  have hmoved : ∀ {r : SessionRegistry} {name : SessionName} {st : SessionState}, r.get? old = some st →
      st.domain ≠ domain → r.after parseFilter now (.rename old text) =
        ((r.erase (.named name)).erase old).insert (.named name) { st with name := some text, lastSeen := now } →
      ∀ q ∈ (r.after parseFilter now (.rename old text)).bound domain, q ∈ r.bound domain := by
    intro r name st hst hd heq q hq
    rw [heq, bound_insert, if_neg hd, bound_erase, bound_erase] at hq
    exact mem_dropId (mem_dropId (mem_dropId hq))
  -- what is left in the domain was there
  have hkept : ∀ {r : SessionRegistry}, old ∉ (r.bound domain).map Prod.fst →
      ∀ q ∈ (r.after parseFilter now (.rename old text)).bound domain,
        (∃ c, (q.1, c) ∈ r.bound domain ∧ q.2.windows = c.windows) ∨
          q.1 ∉ (r.bound domain).map Prod.fst ∧ q.2 = q.2.defs := by
    intro r hold q hq
    rcases @after_rename parseFilter now r old text with heq | ⟨name, st, -, -, hst, heq⟩
    · rw [heq] at hq
      exact .inl ⟨q.2, hq, rfl⟩
    · have hd : st.domain ≠ domain := fun hd => hold (mem_bound_fst.mpr ⟨st, hst, hd⟩)
      exact .inl ⟨q.2, hmoved hst hd heq q hq, rfl⟩
  by_cases hold : old ∈ (s.bound domain).map Prod.fst
  swap
  · exact bound_eq_of_sameDefs h hsame (hkept hold) (hkept (h ▸ hold))
  · -- a session of the domain is renamed in both, or the ids would differ
    have hgone : ∀ {r : SessionRegistry} {name : SessionName} {st : SessionState}, old ≠ .named name →
        r.after parseFilter now (.rename old text) =
          ((r.erase (.named name)).erase old).insert (.named name) { st with name := some text, lastSeen := now } →
        old ∉ ((r.after parseFilter now (.rename old text)).bound domain).map Prod.fst := by
      intro r name st hne heq hmem
      rw [heq] at hmem
      obtain ⟨st1, hst1, -⟩ := mem_bound_fst.mp hmem
      rw [get?_insert, if_neg hne, get?_erase, if_pos rfl] at hst1
      cases hst1
    rcases @after_rename parseFilter now s old text with heq | ⟨name, st, htext, hne, hst, heq⟩
    · rcases @after_rename parseFilter now s' old text with heq' | ⟨name', st', -, hne', -, heq'⟩
      · rw [heq, heq', h]
      · refine absurd ?_ (hgone hne' heq')
        rw [← hsame.ids, heq]
        exact hold
    · rcases @after_rename parseFilter now s' old text with heq' | ⟨name', st', htext', -, hst', heq'⟩
      · refine absurd ?_ (hgone hne heq)
        rw [hsame.ids, heq', ← h]
        exact hold
      · obtain ⟨st0, hst0, hd⟩ := mem_bound_fst.mp hold
        rw [hst] at hst0
        obtain rfl := Option.some.inj hst0
        obtain ⟨st1, hst1, hd', hcore⟩ := get?_of_alike h hst hd
        rw [hst'] at hst1
        obtain rfl := Option.some.inj hst1
        obtain rfl : name = name' := by
          have h1 := SessionName.of?_text name
          rw [htext, ← htext', SessionName.of?_text name'] at h1
          exact (Option.some.inj h1).symm
        have hrenamed : ({ st with name := some text, lastSeen := now } : SessionState).core =
            ({ st' with name := some text, lastSeen := now } : SessionState).core :=
          congrArg (fun c : SessionState => { c with name := some text }) hcore.symm
        rw [heq, heq', bound_insert, bound_insert, if_pos hd, if_pos hd', bound_erase, bound_erase, bound_erase,
          bound_erase, h, hrenamed]

/-- **The same operation, with the same sessions left in the domain, leaves
them alike.** -/
theorem bound_after_crossing {op : SessionOp} (h : s.bound domain = s'.bound domain) (hcross : op.crosses domain = true)
    (hsame : SameDefs domain (s.after parseFilter now op) (s'.after parseFilter now op)) :
    (s.after parseFilter now op).bound domain = (s'.after parseFilter now op).bound domain := by
  by_cases hop : ∃ old name, op = .rename old name
  · obtain ⟨old, name, rfl⟩ := hop
    exact bound_after_rename h hsame
  · have hop' : ∀ old name, op ≠ .rename old name := fun old name he => hop ⟨old, name, he⟩
    exact bound_eq_of_sameDefs h hsame (fun _ hq => windows_after hop' hcross hq) fun _ hq =>
      windows_after hop' hcross hq

end SessionRegistry

/-! ### Two runs -/

/-- The action is about other domains and their sessions. -/
def DaemonAct.Outside (domain : DomainId) (d : Daemon) : DaemonAct → Prop
  | .arrive other _ => other ≠ domain
  | .span other _ => other ≠ domain
  | .clear other => other ≠ domain
  | .resync other => other ≠ domain
  | .session _ op =>
    (∀ id ∈ op.touches, id ∉ (d.sessions.bound domain).map Prod.fst) ∧ op.enters d.sessions ≠ some domain

namespace Daemon

/-- Nothing of the domain tells the two daemons apart. -/
structure Alike (domain : DomainId) (d d' : Daemon) : Prop where
  pipeline : d.pipelines domain = d'.pipelines domain
  bound : d.sessions.bound domain = d'.sessions.bound domain
  fired : d.fired domain = d'.fired domain

variable {E : TextEnv} {parseFilter : String → Except String ParsedFilter} {domain : DomainId} {d d' : Daemon}

/-- **An action elsewhere changes nothing in the domain.** -/
theorem step_outside {a : DaemonAct} (h : a.Outside domain d) : Alike domain (d.step E parseFilter a) d := by
  cases a with
  | arrive other entry =>
    have hne : domain ≠ other := Ne.symm h
    exact ⟨Function.update_of_ne hne _ _, processEntryForDomain_elsewhere h _ _ _, Function.update_of_ne hne _ _⟩
  | span other span =>
    have hne : domain ≠ other := Ne.symm h
    exact ⟨Function.update_of_ne hne _ _, processSpanForDomain_elsewhere h _ _ _, rfl⟩
  | clear other => exact ⟨Function.update_of_ne (Ne.symm h) _ _, rfl, rfl⟩
  | resync other => exact ⟨Function.update_of_ne (Ne.symm h) _ _, rfl, rfl⟩
  | session now op => exact ⟨rfl, bound_after_outside h.1 h.2, rfl⟩

/-- The same action in both is in another domain, or does the same. -/
theorem step_alike {a : DaemonAct} (h : Alike domain d d')
    (ha : ∀ now op, a = .session now op → op.crosses domain = true →
      SameDefs domain (d.sessions.after parseFilter now op) (d'.sessions.after parseFilter now op)) :
    Alike domain (d.step E parseFilter a) (d'.step E parseFilter a) := by
  have helsewhere : (∀ r : Daemon, a.Outside domain r) →
      Alike domain (d.step E parseFilter a) (d'.step E parseFilter a) := by
    intro hout
    have h1 := @step_outside E parseFilter _ _ _ (hout d)
    have h2 := @step_outside E parseFilter _ _ _ (hout d')
    exact ⟨by rw [h1.pipeline, h2.pipeline, h.pipeline], by rw [h1.bound, h2.bound, h.bound],
      by rw [h1.fired, h2.fired, h.fired]⟩
  cases a with
  | arrive other entry =>
    by_cases hother : other = domain
    · subst hother
      obtain ⟨h1, h2, h3⟩ := @processEntryForDomain_alike E _ _ _ h.bound (d.pipelines other) entry
      refine ⟨?_, ?_, ?_⟩
      · simp only [step, Function.update_self]
        rw [h1, h.pipeline]
      · simp only [step]
        rw [h2, h.pipeline]
      · simp only [step, Function.update_self]
        rw [h3, h.pipeline, h.fired]
    · exact helsewhere fun _ => hother
  | span other span =>
    by_cases hother : other = domain
    · subst hother
      obtain ⟨h1, h2⟩ := processSpanForDomain_alike h.bound (d.pipelines other) span
      refine ⟨?_, ?_, h.fired⟩
      · simp only [step, Function.update_self]
        rw [h1, h.pipeline]
      · simp only [step]
        rw [h2, h.pipeline]
    · exact helsewhere fun _ => hother
  | clear other =>
    by_cases hother : other = domain
    · subst hother
      refine ⟨?_, h.bound, h.fired⟩
      simp only [step, Function.update_self]
      rw [h.pipeline]
    · exact helsewhere fun _ => hother
  | resync other =>
    by_cases hother : other = domain
    · subst hother
      refine ⟨?_, h.bound, h.fired⟩
      simp only [step, Function.update_self, syncPreBufferSizeForDomain]
      rw [h.pipeline, maxPreWindowForDomain_eq, maxPreWindowForDomain_eq, h.bound]
    · exact helsewhere fun _ => hother
  | session now op =>
    refine ⟨h.pipeline, ?_, h.fired⟩
    show (d.sessions.after parseFilter now op).bound domain = (d'.sessions.after parseFilter now op).bound domain
    cases hcross : op.crosses domain with
    | true => exact bound_after_crossing h.bound hcross (ha now op rfl hcross)
    | false => exact bound_after_alike h.bound hcross

end Daemon

/-- Two runs side by side. Both take the actions of the domain, in the same
order; each takes what it likes elsewhere. `brings` is asked of the two
registries after an operation that can bring the domain a session or take its
name. -/
inductive TwoRuns (E : TextEnv) (parseFilter : String → Except String ParsedFilter) (domain : DomainId)
    (brings : SessionRegistry → SessionRegistry → Prop) : Daemon → Daemon → Prop
  | start {d d' : Daemon} : d.Alike domain d' → TwoRuns E parseFilter domain brings d d'
  | left {d d' : Daemon} {a : DaemonAct} : TwoRuns E parseFilter domain brings d d' → a.Outside domain d →
    TwoRuns E parseFilter domain brings (d.step E parseFilter a) d'
  | right {d d' : Daemon} {a : DaemonAct} : TwoRuns E parseFilter domain brings d d' → a.Outside domain d' →
    TwoRuns E parseFilter domain brings d (d'.step E parseFilter a)
  | both {d d' : Daemon} {a : DaemonAct} : TwoRuns E parseFilter domain brings d d' →
    (∀ now op, a = .session now op → op.crosses domain = true →
      brings (d.sessions.after parseFilter now op) (d'.sessions.after parseFilter now op)) →
    TwoRuns E parseFilter domain brings (d.step E parseFilter a) (d'.step E parseFilter a)

/-- Nothing ever tells the two runs apart in the domain. -/
theorem TwoRuns.alike {E : TextEnv} {parseFilter : String → Except String ParsedFilter} {domain : DomainId}
    {d d' : Daemon} (h : TwoRuns E parseFilter domain (SameDefs domain) d d') : d.Alike domain d' := by
  induction h with
  | start h => exact h
  | left _ hout ih =>
    have h1 := @Daemon.step_outside E parseFilter _ _ _ hout
    exact ⟨h1.pipeline.trans ih.pipeline, h1.bound.trans ih.bound, h1.fired.trans ih.fired⟩
  | right _ hout ih =>
    have h1 := @Daemon.step_outside E parseFilter _ _ _ hout
    exact ⟨ih.pipeline.trans h1.pipeline.symm, ih.bound.trans h1.bound.symm, ih.fired.trans h1.fired.symm⟩
  | both _ ha ih => exact Daemon.step_alike ih ha

/-- **Domains are isolated.** In two runs with the same records and operations
in a domain, and anything elsewhere, where the sessions that come to the
domain bring the same definitions: the domain's ring, its pre-trigger buffer
and its epoch log are the same, and so is what fired on each of its
entries. -/
theorem domains_isolated (E : TextEnv) (parseFilter : String → Except String ParsedFilter) (domain : DomainId)
    {d d' : Daemon} (h : TwoRuns E parseFilter domain (SameDefs domain) d d') :
    (d.pipelines domain).store = (d'.pipelines domain).store ∧
    (d.pipelines domain).preBuffer = (d'.pipelines domain).preBuffer ∧
    (d.pipelines domain).epochs = (d'.pipelines domain).epochs ∧
    d.fired domain = d'.fired domain := by
  have halike := h.alike
  rw [halike.pipeline]
  exact ⟨rfl, rfl, rfl, halike.fired⟩

namespace Daemon

/-- No sessions, and every domain empty. -/
def boot : Daemon := ⟨fun _ => .newWithSeq 4 four_le_u64Max 0, .new, fun _ => []⟩

/-- The domain of the runs below. -/
def side : DomainId := ⟨"side"⟩

def owner : SessionId := .named ⟨"a", noSlash_a⟩

/-- A named session starts. -/
def started : Daemon := boot.step .ascii ParseEnv.ascii.parse (.session 0 (.createNamed "a"))

/-- It adds a trigger that fires once, on any entry, and refuses to store what
no trigger asks for. -/
def armed : Daemon :=
  (started.step .ascii ParseEnv.ascii.parse (.session 0 (.own owner (.addTrigger ⟨"ALL", 0, 0, 0, none, true⟩)))).step
    .ascii ParseEnv.ascii.parse (.session 0 (.own owner (.addFilter "NONE" none)))

/-- An entry arrives where it is bound. -/
def spent : Daemon := armed.step .ascii ParseEnv.ascii.parse (.arrive .default (.blank 0))

/-- The session binds to the domain, and an entry arrives there. -/
def moved (d : Daemon) (entry : LogEntry) : Daemon :=
  (d.step .ascii ParseEnv.ascii.parse (.session 1 (.setDomain owner side))).step .ascii ParseEnv.ascii.parse
    (.arrive side entry)

def failing : LogEntry := { LogEntry.blank 0 with level := .error }

end Daemon

open Daemon

/-- A trigger that fired elsewhere, and waits there, fires in the domain. -/
theorem domains_isolated_moved :
    let d := moved (started.step .ascii ParseEnv.ascii.parse (.arrive .default failing)) failing
    (d.pipelines side).store = ((moved started failing).pipelines side).store ∧
      (d.fired side).map List.length = [1] := by
  have h0 : TwoRuns .ascii ParseEnv.ascii.parse side (SameDefs side) boot boot := .start ⟨rfl, rfl, rfl⟩
  have h1 : TwoRuns .ascii ParseEnv.ascii.parse side (SameDefs side) started started := by
    refine h0.both fun now op ha _ => ?_
    obtain ⟨rfl, rfl⟩ := DaemonAct.session.inj ha
    rfl
  have h2 := h1.left (a := .arrive .default failing) (show DomainId.default ≠ side by decide)
  have h3 := h2.both (a := .session 1 (.setDomain owner side)) fun now op ha _ => by
    obtain ⟨rfl, rfl⟩ := DaemonAct.session.inj ha
    rfl
  have h4 := h3.both (a := .arrive side failing) fun now op ha _ => by cases ha
  exact ⟨(domains_isolated .ascii ParseEnv.ascii.parse side h4).1, rfl⟩

/-- **What a session did elsewhere comes along.** Two runs have the same
operations, and one an entry more in another domain. It spends a trigger that
fires once, before the session binds to the domain: there the trigger fires in
one run only, and only there the entry is stored. -/
theorem definitions_come_along : ∃ d d', TwoRuns .ascii ParseEnv.ascii.parse side (fun _ _ => True) d d' ∧
    (d.pipelines side).store.entries.length = 0 ∧ (d'.pipelines side).store.entries.length = 1 ∧
    d.fired side ≠ d'.fired side := by
  have h0 : TwoRuns .ascii ParseEnv.ascii.parse side (fun _ _ => True) boot boot := .start ⟨rfl, rfl, rfl⟩
  have h1 : TwoRuns .ascii ParseEnv.ascii.parse side (fun _ _ => True) armed armed :=
    ((h0.both fun _ _ _ _ => trivial).both fun _ _ _ _ => trivial).both fun _ _ _ _ => trivial
  have h2 : TwoRuns .ascii ParseEnv.ascii.parse side (fun _ _ => True) spent armed :=
    h1.left (a := .arrive .default (.blank 0)) (show DomainId.default ≠ side by decide)
  have h3 : TwoRuns .ascii ParseEnv.ascii.parse side (fun _ _ => True) (moved spent (.blank 0)) (moved armed (.blank 0)) :=
    (h2.both fun _ _ _ _ => trivial).both fun _ _ _ _ => trivial
  refine ⟨_, _, h3, rfl, rfl, ?_⟩
  decide

end Logmon
