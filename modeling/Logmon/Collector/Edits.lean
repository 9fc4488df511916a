/-
# Edits of one collector

An edit reads the whole definition and the pin under one lock, and writes the
whole of both back under another. What a second edit applied in between is
overwritten with what the first had read (`edit_lost`). The edits that
returned `Ok` are worth the same as those edits one after another, in the
order they were applied, along every run in which an edit finds, when it is
applied, what it read of the fields it does not set (`edits_serialise`):
edits that set the same fields may cross.

A run keeps what each call was asked, and the edits applied, which are those
that return `Ok`.

Key definitions: `sequential`, `CollectorEdit.unchanged`, `EditRun`,
`EditRun.current`.
Key theorems: `editDef_congr`, `EditRun.Serial.step`, `edits_serialise`,
`edit_lost`.
-/
import Logmon.Collector.Entries
import Logmon.Lib.Reach
import Mathlib.Data.List.Permutation

namespace Logmon

open Lib CollectorRegistry

variable {W Span P : Type}

/-! ### Edits one after another -/

/-- What one edit makes of a definition and a pin. -/
def editedBy (env : CollectorEnv W Span) (x : CollectorDef × DomainId) (change : CollectorEdit) :
    Except RegistryError (CollectorDef × DomainId) :=
  match editDef env x.1 change with
  | .error e => .error e
  | .ok defn => .ok (defn, change.domain.getD x.2)

/-- The edits one after another. -/
def sequential (env : CollectorEnv W Span) (x : CollectorDef × DomainId) (changes : List CollectorEdit) :
    Except RegistryError (CollectorDef × DomainId) :=
  changes.foldlM (editedBy env) x

theorem sequential_concat {env : CollectorEnv W Span} {x y : CollectorDef × DomainId} {changes : List CollectorEdit}
    (h : sequential env x changes = .ok y) (change : CollectorEdit) :
    sequential env x (changes ++ [change]) = editedBy env y change := by
  unfold sequential at h ⊢
  rw [List.foldlM_append, h]
  show List.foldlM (editedBy env) y [change] = editedBy env y change
  rw [List.foldlM_cons]
  cases editedBy env y change <;> rfl

/-- Two definitions agree on every field the edit does not set. -/
def CollectorEdit.unchanged (c : CollectorEdit) (old new : CollectorDef) : Bool :=
  old.name == new.name &&
    (c.description.isSome || old.description == new.description) &&
    (c.filter.isSome || (old.filter == new.filter && old.filterString == new.filterString)) &&
    (c.level.isSome || old.level == new.level) &&
    (c.groupKeys.isSome || old.groupKeys == new.groupKeys) &&
    (c.maxSampleBytes.isSome || old.maxSampleBytes == new.maxSampleBytes) &&
    (c.threshold.isSome || old.threshold == new.threshold)

theorem getD_congr {α : Type} {o : Option α} {a b : α} (h : o.isSome = true ∨ a = b) : o.getD a = o.getD b := by
  rcases h with h | rfl
  · obtain ⟨x, rfl⟩ := Option.isSome_iff_exists.mp h
    rfl
  · rfl

/-- An edit makes the same of both. -/
theorem editDef_congr (env : CollectorEnv W Span) {c : CollectorEdit} {old new : CollectorDef}
    (h : c.unchanged old new = true) : editDef env old c = editDef env new c := by
  simp only [CollectorEdit.unchanged, Bool.and_eq_true, Bool.or_eq_true, beq_iff_eq] at h
  obtain ⟨⟨⟨⟨⟨⟨hname, hdesc⟩, hfilter⟩, hlevel⟩, hkeys⟩, hbytes⟩, hthr⟩ := h
  have hdesc' : editDescription old.description c.description = editDescription new.description c.description := by
    rcases hdesc with hd | hd
    · obtain ⟨d, hd⟩ := Option.isSome_iff_exists.mp hd
      rw [hd]
      rfl
    · rw [hd]
  unfold editDef
  rw [hname, hdesc', getD_congr hlevel, getD_congr hkeys, getD_congr hbytes, getD_congr hthr]
  cases hf : c.filter with
  | some f => rfl
  | none =>
    obtain ⟨h1, h2⟩ := hfilter.resolve_left (by simp [hf])
    rw [h1, h2]

/-! ### Runs -/

/-- The system, what each of its calls was asked, and the edits applied, in
order, each with its collector. -/
structure EditRun (W P : Type) where
  sys : Sys W P
  asked : List Request
  applied : List (ℕ × CollectorEdit)

namespace EditRun

def start (reg : CollectorRegistry W) (metrics : ℕ → ReceiverMetrics) (disk : P → Option (DiskFile W)) : EditRun W P :=
  { sys := .start reg metrics disk, asked := [], applied := [] }

/-- The edits applied to one collector. -/
def editsOf (s : EditRun W P) (id : ℕ) : List CollectorEdit := (s.applied.filter fun x => x.1 = id).map Prod.snd

/-- The edit whose second section is the next step, and what it was asked. -/
def applying (s : EditRun W P) : Sys.Action Span → Option (PendingEdit W × CollectorEdit)
  | .step i _ =>
    match s.sys.calls[i]?, s.asked[i]? with
    | some ⟨.editApply p :: _, .none⟩, some (.edit _ _ change _ _) => some (p, change)
    | _, _ => none
  | _ => none

/-- The edit the next step makes return `Ok`. -/
def applies (env : CollectorEnv W Span) (s : EditRun W P) (a : Sys.Action Span) : List (ℕ × CollectorEdit) :=
  match s.applying a with
  | none => []
  | some (p, change) =>
    match s.sys.reg.editApply env s.sys.loss p with
    | .error _ => []
    | .ok _ => [(p.id, change)]

def asks : Sys.Action Span → List Request
  | .call req => [req]
  | _ => []

def step [DecidableEq P] (path : String → String → P) (env : CollectorEnv W Span) (s : EditRun W P)
    (a : Sys.Action Span) : Option (EditRun W P) :=
  match s.sys.step path env a with
  | none => none
  | some sys => some { sys, asked := s.asked ++ asks a, applied := s.applied ++ s.applies env a }

/-- An edit finds, when it is applied, what it read of the fields it does not
set, the pin among them. -/
def current (s : EditRun W P) (a : Sys.Action Span) : Bool :=
  (s.applying a).all fun x =>
    (s.sys.reg.entries.find? (Entry.isHeld x.1.id x.1.owner)).all fun e =>
      x.2.unchanged x.1.oldDef e.collector.defn && (x.2.domain.isSome || e.domain == x.1.targetDomain)

end EditRun

/-- A task of an edit is the one it was asked, and its second section carries
what the edit makes of what the first read. -/
def Task.From (env : CollectorEnv W Span) (req : Option Request) : Task W → Prop
  | .editCheck owner name change newMetrics now => req = some (.edit owner name change newMetrics now)
  | .editApply p => ∃ owner name change newMetrics now, req = some (.edit owner name change newMetrics now) ∧
      editDef env p.oldDef change = .ok p.defn ∧ change.domain.getD p.targetDomain = p.targetDomain
  | _ => True

namespace EditRun

variable {env : CollectorEnv W Span} {s s' : EditRun W P} {e₀ : Entry W}

/-- What holds in every state, of the collector that was `e₀`. -/
structure Serial (env : CollectorEnv W Span) (e₀ : Entry W) (s : EditRun W P) : Prop where
  known : s.sys.Known
  below : e₀.id < s.sys.reg.nextId
  aligned : s.asked.length = s.sys.calls.length
  asked : ∀ (i : ℕ) (c : Call W P), s.sys.calls[i]? = some c → ∀ t ∈ c.tasks, t.From env s.asked[i]?
  serial : ∀ e ∈ s.sys.reg.entries, e.id = e₀.id →
    sequential env (e₀.collector.defn, e₀.domain) (s.editsOf e₀.id) = .ok (e.collector.defn, e.domain)

/-- The tasks a section leaves are its call's. -/
theorem locked_from (env : CollectorEnv W Span) (s : Sys W P) {t : Task W} {req : Option Request}
    (ht : t.From env req) : ∀ t' ∈ (s.locked env t).2, t'.From env req := by
  intro t' ht'
  cases t with
  | editCheck owner name change newMetrics now =>
    simp only [Sys.locked] at ht'
    split at ht'
    · exact absurd ht' List.not_mem_nil
    · rename_i p hp
      obtain ⟨e, hc⟩ := editCheck_ok hp
      rcases List.mem_cons.mp ht' with rfl | ht'
      · trivial
      · obtain rfl := List.mem_singleton.mp ht'
        refine ⟨owner, name, change, newMetrics, now, ht, by rw [hc.oldDef]; exact hc.built, ?_⟩
        rw [editDomain_ok hc.domain]
        cases change.domain <;> rfl
  | lifecycle changes pending =>
    cases changes with
    | nil =>
      simp only [Sys.locked, Sys.finish, List.mem_append, List.mem_map] at ht'
      rcases ht' with ⟨_, _, rfl⟩ | ⟨_, _, rfl⟩ <;> trivial
    | cons c cs =>
      obtain rfl := List.mem_singleton.mp ht'
      trivial
  | write id file =>
    obtain rfl := List.mem_singleton.mp ht'
    trivial
  | delete owner name since =>
    obtain rfl := List.mem_singleton.mp ht'
    trivial
  | _ =>
    simp only [Sys.locked] at ht'
    split at ht'
    all_goals
      simp only [List.mem_cons, List.not_mem_nil, or_false] at ht'
    all_goals
      first
      | exact ht'.elim
      | (subst ht'; trivial)
      | (rcases ht' with rfl | rfl <;> trivial)

theorem applying_eq {i : ℕ} {ok : Bool} {p : PendingEdit W} {rest : List (Task W)} {owner : SessionName}
    {name : String} {change : CollectorEdit} {newMetrics : Option ℕ} {now : ℤ}
    (hi : s.sys.calls[i]? = some ⟨.editApply p :: rest, .none⟩)
    (hreq : s.asked[i]? = some (.edit owner name change newMetrics now)) :
    s.applying (.step i ok : Sys.Action Span) = some (p, change) := by
  simp [applying, hi, hreq]

theorem editsOf_append (applied : List (ℕ × CollectorEdit)) (sys : Sys W P) (asked : List Request) (id : ℕ) :
    editsOf { sys, asked, applied := s.applied ++ applied } id =
      s.editsOf id ++ (applied.filter fun x => x.1 = id).map Prod.snd := by
  simp [editsOf]

/-- The collector `id` is not the one the step applies an edit to. -/
theorem editsOf_applies_ne {a : Sys.Action Span} {id : ℕ} (sys : Sys W P) (asked : List Request)
    (h : ∀ p change e, s.applying a = some (p, change) →
      s.sys.reg.entries.find? (Entry.isHeld p.id p.owner) = some e → e.id ≠ id) :
    editsOf { sys, asked, applied := s.applied ++ s.applies env a } id = s.editsOf id := by
  rw [editsOf_append]
  suffices hnone : ((s.applies env a).filter fun x => x.1 = id) = [] by simp [hnone]
  unfold applies
  split
  · rfl
  rename_i p change happ
  split
  · rfl
  · rename_i out hok
    obtain ⟨e, he, _⟩ := editApply_ok hok
    have hid := (Entry.isHeld_iff.mp (List.find?_some he)).1
    simpa [← hid] using h p change e happ he

/-- An edit that is current is worth what it was asked. -/
theorem editedBy_of_current {a : Sys.Action Span} (hcur : s.current a = true) {p : PendingEdit W}
    {change : CollectorEdit} (happ : s.applying a = some (p, change)) {e : Entry W}
    (he : s.sys.reg.entries.find? (Entry.isHeld p.id p.owner) = some e)
    (hdef : editDef env p.oldDef change = .ok p.defn) (hdom : change.domain.getD p.targetDomain = p.targetDomain) :
    editedBy env (e.collector.defn, e.domain) change = .ok (p.defn, p.targetDomain) := by
  simp only [current, happ, he, Option.all_some, Bool.and_eq_true, Bool.or_eq_true, beq_iff_eq] at hcur
  unfold editedBy
  rw [← editDef_congr env hcur.1, hdef]
  show Except.ok (p.defn, change.domain.getD e.domain) = _
  rw [getD_congr hcur.2, hdom]

/-- The collector after a section: its edits are worth what it carries. -/
theorem Serial.locked (h : Serial env e₀ s) {i : ℕ} {ok : Bool} {t : Task W} {rest : List (Task W)}
    (hi : s.sys.calls[i]? = some ⟨t :: rest, .none⟩) (hcur : s.current (.step i ok : Sys.Action Span) = true)
    (sys : Sys W P) (asked : List Request) {e' : Entry W} (he' : e' ∈ (s.sys.locked env t).1.entries)
    (hid : e'.id = e₀.id) :
    sequential env (e₀.collector.defn, e₀.domain)
      (editsOf { sys, asked, applied := s.applied ++ s.applies env (.step i ok) } e₀.id) =
      .ok (e'.collector.defn, e'.domain) := by
  -- the step applies an edit only if the section is one
  have happ : ∀ p change, s.applying (.step i ok : Sys.Action Span) = some (p, change) → t = .editApply p := by
    intro p change hp
    simp only [applying, hi] at hp
    split at hp
    · rename_i hcall hreq
      simp only [Option.some.injEq, Call.mk.injEq, List.cons.injEq, Prod.mk.injEq] at hcall hp
      rw [hcall.1.1, hp.1]
    · simp at hp
  cases Sys.locked_became h.known.distinct he' with
  | kept e mem hide defn domain window other =>
    rw [editsOf_applies_ne, defn, domain]
    · exact h.serial e mem (hide.symm.trans hid)
    · intro p change a hp ha hne
      exact other p a (happ p change hp) ha ((hide.symm.trans hid).trans hne.symm)
  | armed hide window =>
    have := h.below
    omega
  | edited p a task found eq =>
    subst task
    obtain ⟨owner, name, change, newMetrics, now, hreq, hdef, hdom⟩ := h.asked i _ hi _ List.mem_cons_self
    have hp : s.applying (.step i ok : Sys.Action Span) = some (p, change) := applying_eq hi hreq
    have haid : a.id = e₀.id := by rw [eq, edited_id] at hid; exact hid
    have hpid : p.id = e₀.id := (Entry.isHeld_iff.mp (List.find?_some found)).1.symm.trans haid
    have happlies : s.applies env (.step i ok) = [(p.id, change)] := by
      simp [applies, hp, CollectorRegistry.editApply, found]
    rw [editsOf_append, happlies, eq, edited_defn, edited_domain]
    simp only [hpid, decide_true, List.filter_cons_of_pos, List.filter_nil, List.map_cons, List.map_nil]
    rw [sequential_concat (h.serial a (List.mem_of_find?_eq_some found) haid)]
    exact editedBy_of_current hcur hp found hdef hdom

/-- A step of a call is a section, or leaves the registry, only drops tasks
and applies no edit. -/
theorem locked_or_idle [DecidableEq P] {path : String → String → P} {s s' : Sys W P} {i : ℕ} {c : Call W P} {ok : Bool}
    (h : Sys.CallStep env path s i c ok s') :
    (∃ t rest, c = ⟨t :: rest, .none⟩ ∧ s'.reg = (s.locked env t).1 ∧
      s'.calls = s.calls.set i ⟨(s.locked env t).2 ++ rest, .none⟩) ∨
    (s'.reg = s.reg ∧ (∀ p rest, c ≠ ⟨.editApply p :: rest, .none⟩) ∧
      ∃ c', s'.calls = s.calls.set i c' ∧ ∀ t ∈ c'.tasks, t ∈ c.tasks) := by
  by_cases happ : ∃ p rest, c = ⟨.editApply p :: rest, .none⟩
  · obtain ⟨p, rest, rfl⟩ := happ
    cases h with
    | locked _ => exact .inl ⟨_, _, rfl, rfl, rfl⟩
    | lock hjob => simp [Sys.jobPath] at hjob
  · rcases h.locked_or_quiet with ⟨t, rest, hc, _, hreg, hcalls⟩ | ⟨hreg, hcalls⟩
    · exact .inl ⟨t, rest, hc, hreg, hcalls⟩
    · exact .inr ⟨hreg, fun p rest hc => happ ⟨p, rest, hc⟩, hcalls⟩

theorem applying_ne {i : ℕ} {ok : Bool} {c : Call W P} (hi : s.sys.calls[i]? = some c)
    (hnot : ∀ p rest, c ≠ ⟨.editApply p :: rest, .none⟩) (p : PendingEdit W) (change : CollectorEdit) :
    s.applying (.step i ok : Sys.Action Span) ≠ some (p, change) := by
  intro hp
  simp only [applying, hi] at hp
  split at hp
  · rename_i hcall _
    exact hnot _ _ (Option.some.inj hcall)
  · simp at hp

/-- What the calls were asked, after one of them is replaced. -/
theorem Serial.asked_set (h : Serial env e₀ s) {i : ℕ} {c c' : Call W P} (hi : s.sys.calls[i]? = some c)
    (hc' : ∀ t ∈ c'.tasks, t.From env s.asked[i]?) (j : ℕ) (d : Call W P)
    (hd : (s.sys.calls.set i c')[j]? = some d) : ∀ t ∈ d.tasks, t.From env s.asked[j]? := by
  by_cases hj : j = i
  · subst hj
    rw [getElem?_set_self' hi] at hd
    obtain rfl := Option.some.inj hd
    exact hc'
  · rw [List.getElem?_set_ne (Ne.symm hj)] at hd
    exact h.asked j d hd

/-- What the calls were asked, after one more is made. -/
theorem Serial.asked_concat (h : Serial env e₀ s) (req : Request) (j : ℕ) (d : Call W P)
    (hd : (s.sys.calls ++ [⟨[req.task], .none⟩])[j]? = some d) :
    ∀ t ∈ d.tasks, t.From env (s.asked ++ [req])[j]? := by
  by_cases hlt : j < s.sys.calls.length
  · rw [List.getElem?_append_left hlt] at hd
    rw [List.getElem?_append_left (by rw [h.aligned]; exact hlt)]
    exact h.asked j d hd
  · obtain rfl : j = s.sys.calls.length := by
      have := (List.getElem?_eq_some_iff.mp hd).1
      simp only [List.length_append, List.length_singleton] at this
      omega
    rw [List.getElem?_concat_length] at hd
    obtain rfl := Option.some.inj hd
    rw [← h.aligned, List.getElem?_concat_length]
    intro t ht
    obtain rfl := List.mem_singleton.mp ht
    cases req <;> first | rfl | trivial

variable [DecidableEq P] {path : String → String → P}

/-- **A step keeps the edits serial** where the edit it applies is current. -/
theorem Serial.step (h : Serial env e₀ s) {a : Sys.Action Span} (hcur : s.current a = true)
    (hs : s.step path env a = some s') : Serial env e₀ s' := by
  unfold EditRun.step at hs
  split at hs
  · simp at hs
  rename_i sys hsys
  obtain rfl := Option.some.inj hs
  have hknown := h.known.step hsys
  rcases Sys.step_cases path hsys with
    ⟨req, rfl, rfl⟩ | ⟨i, ok, c, rfl, hi, hstep⟩ | ⟨m, k, t, rfl, rfl⟩ | ⟨d, sp, rfl, rfl⟩
  · refine ⟨hknown, h.below, by simp [asks, h.aligned], h.asked_concat req, fun e he hid => ?_⟩
    rw [editsOf_applies_ne _ _ fun _ _ _ hp => by simp [applying] at hp]
    exact h.serial e he hid
  · have hmem := List.mem_of_getElem? hi
    rcases locked_or_idle hstep with ⟨t, rest, rfl, hreg, hcalls⟩ | ⟨hreg, hnot, c', hcalls, htasks⟩
    · have hl := Sys.locked_known env h.known.distinct t (h.known.names _ hmem t List.mem_cons_self)
      refine ⟨hknown, ?_, by simp [asks, hcalls, h.aligned], ?_, fun e he hid => h.locked hi hcur _ _ (hreg ▸ he) hid⟩
      · show e₀.id < sys.reg.nextId
        rw [hreg]
        exact Nat.lt_of_lt_of_le h.below hl.follows.1
      · simp only [asks, List.append_nil, hcalls]
        refine h.asked_set hi fun t' ht' => ?_
        rcases List.mem_append.mp ht' with ht' | ht'
        · exact locked_from env s.sys (h.asked i _ hi t List.mem_cons_self) t' ht'
        · exact h.asked i _ hi t' (List.mem_cons_of_mem _ ht')
    · refine ⟨hknown, ?_, by simp [asks, hcalls, h.aligned], ?_, fun e he hid => ?_⟩
      · show e₀.id < sys.reg.nextId
        rw [hreg]
        exact h.below
      · simp only [asks, List.append_nil, hcalls]
        exact h.asked_set hi fun t ht => h.asked i c hi t (htasks t ht)
      · rw [editsOf_applies_ne _ _ fun p _ _ hp => absurd hp (applying_ne hi hnot p _)]
        exact h.serial e (hreg ▸ he) hid
  · refine ⟨hknown, h.below, by simp [asks, h.aligned], by simpa [asks] using h.asked, fun e he hid => ?_⟩
    rw [editsOf_applies_ne _ _ fun _ _ _ hp => by simp [applying] at hp]
    exact h.serial e he hid
  · refine ⟨hknown, h.below, by simp [asks, h.aligned], by simpa [asks] using h.asked, fun e' he' hid => ?_⟩
    rw [editsOf_applies_ne _ _ fun _ _ _ hp => by simp [applying] at hp]
    obtain ⟨e, he, h1, h2, h3⟩ := Sys.ingestSpan_kept he'
    rw [h2, h3]
    exact h.serial e he (h1.symm.trans hid)

end EditRun

/-- **Edits are not lost**: in every state of every run, saves failing or not
and other calls in between, in which an edit finds, when it is applied, what
it read of the fields it does not set, the collector carries what the edits
applied to it make of its first definition and pin, one after another. -/
theorem edits_serialise [DecidableEq P] (env : CollectorEnv W Span) (path : String → String → P)
    (reg : CollectorRegistry W) (hdistinct : reg.Distinct) (metrics : ℕ → ReceiverMetrics)
    (disk : P → Option (DiskFile W)) {e₀ : Entry W} (he₀ : e₀ ∈ reg.entries) {s : EditRun W P}
    (hreach : Reach (EditRun.step path env) (fun s a => s.current a = true) (EditRun.start reg metrics disk) s) :
    ∀ e ∈ s.sys.reg.entries, e.id = e₀.id →
      sequential env (e₀.collector.defn, e₀.domain) (s.editsOf e₀.id) = .ok (e.collector.defn, e.domain) := by
  have h : EditRun.Serial env e₀ s := by
    refine hreach.invariant (I := EditRun.Serial env e₀) ?_ fun s a s' h hcur hs => h.step hcur hs
    refine ⟨.start hdistinct metrics disk, hdistinct.below _ _ _ (key_mem he₀), rfl, ?_, fun e he hid => ?_⟩
    · simp [EditRun.start, Sys.start]
    · obtain rfl := hdistinct.unique he he₀ hid
      rfl
  exact h.serial

/-- One collector, for the runs on fixed inputs. -/
def oneCollector (o : SessionName) : CollectorRegistry ℕ :=
  { entries := [CollectorRegistry.armed .counting (fun _ => 0) (.withBudget 10) o ⟨"default"⟩ 0 (.sample "a" 1) 0],
    maxTotalSampleBytes := 10, nextId := 2 }

theorem oneCollector_distinct (o : SessionName) : (oneCollector o).Distinct := by
  refine ⟨List.nodup_singleton _, fun id o' n h => ?_⟩
  obtain rfl : id = 1 := congrArg Prod.fst (List.mem_singleton.mp h)
  exact Nat.lt_succ_self 1

/-- Two edits of it: both checked, then the first applied, then the second. -/
def crossedEdits (o : SessionName) (a b : CollectorEdit) : List (Sys.Action Unit) :=
  [.call (.edit o "a" a none 0), .call (.edit o "a" b none 0), .step 0 true, .step 1 true] ++
    List.replicate 7 (.step 0 true) ++ List.replicate 7 (.step 1 true)

theorem edits_serialise_crossed : ∃ s : EditRun ℕ (String × String),
    runActs (EditRun.step Prod.mk .counting) (EditRun.start (oneCollector ⟨"o", by decide⟩) (fun _ => .new) fun _ => none)
      (crossedEdits ⟨"o", by decide⟩ { CollectorEdit.default with description := some "x" }
        { CollectorEdit.default with description := some "y" }) = some s ∧
    s.sys.reg.entries.map (fun e => e.collector.defn.description) = [some "y"] ∧
    ∀ e ∈ s.sys.reg.entries, e.id = 1 →
      sequential .counting (.sample "a" 1, ⟨"default"⟩) (s.editsOf 1) = .ok (e.collector.defn, e.domain) := by
  refine ⟨_, rfl, by decide, ?_⟩
  exact edits_serialise .counting Prod.mk (oneCollector ⟨"o", by decide⟩)
    (oneCollector_distinct _)
    (fun _ => .new) (fun _ => none) List.mem_cons_self
    (reach_guarded (fun _ _ h => h) (crossedEdits ⟨"o", by decide⟩ { CollectorEdit.default with description := some "x" }
        { CollectorEdit.default with description := some "y" }) .start rfl)

/-- What is seen of one collector at the end of a run: its edits, and what it
carries. -/
def EditRun.seen (s : EditRun ℕ (String × String)) :
    List CollectorEdit × List (ℕ × CollectorDef × DomainId) × Bool :=
  (s.editsOf 1, s.sys.reg.entries.map fun e => (e.id, e.collector.defn, e.domain),
    s.sys.calls.all fun c => decide c.Returned)

/-- A description and a level are edited, crossing: both calls return `Ok`,
and the description is gone, which it is after no order of the two. -/
theorem edit_lost : ∃ s : EditRun ℕ (String × String),
    runActs (EditRun.step Prod.mk .counting) (EditRun.start (oneCollector ⟨"o", by decide⟩) (fun _ => .new) fun _ => none)
      (crossedEdits ⟨"o", by decide⟩ { CollectorEdit.default with description := some "x" }
        { CollectorEdit.default with level := some .timing }) = some s ∧
    (∀ c ∈ s.sys.calls, c.Returned) ∧ (s.editsOf 1).length = 2 ∧
    ∃ e ∈ s.sys.reg.entries, e.id = 1 ∧ ∀ order : List CollectorEdit, order.Perm (s.editsOf 1) →
      sequential .counting (.sample "a" 1, ⟨"default"⟩) order ≠ .ok (e.collector.defn, e.domain) := by
  have hrun : (runActs (EditRun.step Prod.mk .counting)
      (EditRun.start (oneCollector ⟨"o", by decide⟩) (fun _ => .new) fun _ => none)
      (crossedEdits ⟨"o", by decide⟩ { CollectorEdit.default with description := some "x" }
        { CollectorEdit.default with level := some .timing })).map EditRun.seen =
      some ([{ CollectorEdit.default with description := some "x" }, { CollectorEdit.default with level := some .timing }],
        [(1, { CollectorDef.sample "a" 1 with level := .timing }, ⟨"default"⟩)], true) := rfl
  obtain ⟨s, hs, hseen⟩ := Option.map_eq_some_iff.mp hrun
  simp only [EditRun.seen, Prod.mk.injEq] at hseen
  obtain ⟨hedits, hentries, hcalls⟩ := hseen
  obtain ⟨e, hone, he⟩ := List.map_eq_singleton_iff.mp hentries
  simp only [Prod.mk.injEq] at he
  obtain ⟨hid, hdefn, hdomain⟩ := he
  refine ⟨s, hs, by simpa using hcalls, by rw [hedits]; rfl, e, by simp [hone], hid, fun order hperm => ?_⟩
  rw [hedits] at hperm
  rw [hdefn, hdomain]
  rcases List.perm_pair.mp hperm with rfl | rfl <;> decide

end Logmon
