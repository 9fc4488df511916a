/-
# Domains over whole runs

What holds of the domains in every state, however creates, loads, deletes and
reads interleave and whatever the host answers. A declared domain stays the
one it is, so the default is always there; a domain is inserted only under a
free name and only below the limit; and the only thing that takes a name from a
domain is a delete, for good.

Key definitions: `Moves`, `TaskOk`, `Ordered`, `Stamped`, `Unnamed`,
`LostToDelete`.
Key theorems: `moves_of_step`, `Ordered.step`, `declared_domains_stay`,
`max_domains_respected`, `inserts_never_replace`.
-/
import Logmon.Daemon.Domains
import Logmon.Lib.Reach
import Logmon.Lib.Slot

namespace Logmon
namespace Domains

open Lib

/-! ### What a step can do -/

/-- The name a create or a load is for. -/
def Job.claims : Job → Option DomainId
  | .create id _ _ _ => some id
  | .load id _ => some id
  | _ => none

/-- Ports are asked for as requested, and given as the host may. -/
structure Answers (s : DomainsRun) (spec : DomainPortSpec) (sp : Spawn) (ans : Except String ℕ) : Prop where
  granted : ∃ ask, sp.ask spec = some ask ∧ ask.granted s.bound ans = true

/-- The moves of a spawn. -/
inductive SpawnMoves (s : DomainsRun) (spec : DomainPortSpec) : Spawn → Spawn → Prop
  | skip (gelf : Option ℕ) : spec.otlpDisabled = true → SpawnMoves s spec (.otlp gelf) (.bound ⟨gelf, none⟩)
  | answer (sp : Spawn) (ans : Except String ℕ) : Answers s spec sp ans → SpawnMoves s spec sp (sp.answered ans)

/-- All the moves of a task. -/
inductive Moves (policy : DomainPolicy) (s : DomainsRun) : Job → Stage → Stage → Effect → Prop
  | acquire {job : Job} {id : DomainId} : job.claims = some id → s.lock = none → Moves policy s job .waiting .checking .acquire
  | found {job : Job} {id : DomainId} {d : Domain} : job.claims = some id → s.registry.get? id = some d →
      Moves policy s job .checking (.found d) .quiet
  | absent {job : Job} {id : DomainId} : job.claims = some id → s.registry.get? id = none →
      Moves policy s job .checking .absent .quiet
  | ensure {id : DomainId} {spec : DomainPortSpec} {ls ss : Option ℕ} (d : Domain) :
      Moves policy s (.create id spec ls ss) (.found d) (.done (ensureIdempotent d spec)) .release
  | refuse {id : DomainId} {c : Cases.LoadedCase} (d : Domain) :
      Moves policy s (.load id c) (.found d) (.done (occupied id d)) .release
  | count {job : Job} {id : DomainId} : job.claims = some id → Moves policy s job .absent (.counted s.list) .quiet
  | full {job : Job} {id : DomainId} (ds : List Domain) (e : String) : job.claims = some id →
      Moves policy s job (.counted ds) (.done (.error e)) .release
  | room {id : DomainId} {spec : DomainPortSpec} {ls ss : Option ℕ} {ds : List Domain} :
      apiCreated ds < policy.maxDomains → Moves policy s (.create id spec ls ss) (.counted ds) (.spawning (.start spec)) .quiet
  | build {id : DomainId} {c : Cases.LoadedCase} {ds : List Domain} :
      apiCreated ds < policy.maxDomains → Moves policy s (.load id c) (.counted ds) .building .quiet
  | spawn {id : DomainId} {spec : DomainPortSpec} {ls ss : Option ℕ} {sp sp' : Spawn} : SpawnMoves s spec sp sp' →
      Moves policy s (.create id spec ls ss) (.spawning sp) (.spawning sp') .quiet
  | fail {id : DomainId} {spec : DomainPortSpec} {ls ss : Option ℕ} (e : String) :
      Moves policy s (.create id spec ls ss) (.spawning (.failed e)) (.done (.error ("could not create domain: " ++ e))) .release
  | create {id : DomainId} {spec : DomainPortSpec} {ls ss : Option ℕ} (r : DomainReceivers) {d : Domain} :
      d = spawnedDomain s.made id r (ls.getD policy.defaultLogBufferSize) (ss.getD policy.defaultSpanBufferSize) .ephemeral →
      Moves policy s (.create id spec ls ss) (.spawning (.bound r)) (.done (.created d)) (.publish d)
  | load {id : DomainId} {c : Cases.LoadedCase} {d : Domain} : d = caseDomain s.made id c →
      Moves policy s (.load id c) .building (.done (.loaded d)) (.publish d)
  | missing {job : Job} {id : DomainId} (e : String) : job = .delete id ∨ (∃ b, job = .read id b) →
      Moves policy s job .looking (.done (.error e)) .quiet
  | hold {job : Job} {id id' : DomainId} {old : Stage} {d : Domain} : job = .delete id ∧ id' = id ∨ (∃ b, job = .read id b) →
      old = .looking ∨ old = .fallback → s.registry.get? id' = some d → Moves policy s job old (.holding d) .quiet
  | keep {id : DomainId} {d : Domain} (e : String) : Moves policy s (.delete id) (.holding d) (.done (.error e)) .quiet
  | agree {id : DomainId} {d : Domain} : d.config.source ≠ .config → Moves policy s (.delete id) (.holding d) .removing .quiet
  | remove {id : DomainId} : Moves policy s (.delete id) .removing (.done (.deleted id)) (.remove id)
  | fallback {id : DomainId} {b : Bool} : Moves policy s (.read id b) .looking .fallback .quiet
  | panic {id : DomainId} {b : Bool} : s.registry.get? .default = none → Moves policy s (.read id b) .fallback .panicked .quiet
  | read {id : DomainId} {b : Bool} {d : Domain} : Moves policy s (.read id b) (.holding d) (.done (.read d)) .quiet
  | booted {seen : List DomainId} : Moves policy s .boot (.boot [] seen) (.done .booted) .quiet
  | pass {cd : ConfigDomain} {todo : List ConfigDomain} {seen : List DomainId} :
      Moves policy s .boot (.boot (cd :: todo) seen) (.boot todo seen) .quiet
  | start {cd : ConfigDomain} {id : DomainId} {todo : List ConfigDomain} {seen : List DomainId} : id ≠ .default → id ∉ seen →
      Moves policy s .boot (.boot (cd :: todo) seen) (.starting cd id todo seen (.start cd.ports)) .quiet
  | starting {cd : ConfigDomain} {id : DomainId} {todo : List ConfigDomain} {seen : List DomainId} {sp sp' : Spawn} :
      SpawnMoves s cd.ports sp sp' →
      Moves policy s .boot (.starting cd id todo seen sp) (.starting cd id todo seen sp') .quiet
  | abort {cd : ConfigDomain} {id : DomainId} {todo : List ConfigDomain} {seen : List DomainId} (e : String) :
      Moves policy s .boot (.starting cd id todo seen (.failed e)) (.boot todo seen) .quiet
  | started {cd : ConfigDomain} {id : DomainId} {todo : List ConfigDomain} {seen : List DomainId} (r : DomainReceivers)
      {d : Domain} : d = spawnedDomain s.made id r (cd.logBufferSize.getD policy.defaultLogBufferSize)
        (cd.spanBufferSize.getD policy.defaultSpanBufferSize) .config →
      Moves policy s .boot (.starting cd id todo seen (.bound r)) (.boot todo (id :: seen)) (.publish d)

variable {policy : DomainPolicy} {s s' : DomainsRun} {i : ℕ} {t : Task} {new : Stage} {effect : Effect}

theorem skip_eq_some {spec : DomainPortSpec} {sp sp' : Spawn} (h : sp.skip spec = some sp') : SpawnMoves s spec sp sp' := by
  cases sp with
  | otlp gelf =>
    simp only [Spawn.skip] at h
    split at h
    · rename_i hd
      obtain rfl := Option.some.inj h
      exact .skip gelf hd
    · cases h
  | _ => cases h

theorem moves_of_create {id : DomainId} {spec : DomainPortSpec} {ls ss : Option ℕ} {old : Stage}
    (h : handleDomainsCreate policy s id spec ls ss old = some (new, effect)) :
    Moves policy s (.create id spec ls ss) old new effect := by
  unfold handleDomainsCreate at h
  split at h
  · split at h
    · rename_i hlock
      cases h
      exact .acquire rfl hlock
    · cases h
  · split at h
    · rename_i d hd
      cases h
      exact .found rfl hd
    · rename_i hd
      cases h
      exact .absent rfl hd
  · cases h
    exact .ensure _
  · cases h
    exact .count rfl
  · split at h
    · cases h
      exact .full _ _ rfl
    · rename_i hroom
      split at h
      · cases h
        exact .full _ _ rfl
      · cases h
        exact .full _ _ rfl
      · cases h
        exact .room (not_le.mp hroom)
  · cases h
    exact .create _ rfl
  · cases h
    exact .fail _
  · obtain ⟨sp', hsp, he⟩ := Option.map_eq_some_iff.mp h
    cases he
    exact .spawn (skip_eq_some hsp)
  · cases h

theorem moves_of_load {id : DomainId} {c : Cases.LoadedCase} {old : Stage}
    (h : handleCasesLoad policy s id c old = some (new, effect)) : Moves policy s (.load id c) old new effect := by
  unfold handleCasesLoad at h
  split at h
  · split at h
    · rename_i hlock
      cases h
      exact .acquire rfl hlock
    · cases h
  · split at h
    · rename_i d hd
      cases h
      exact .found rfl hd
    · rename_i hd
      cases h
      exact .absent rfl hd
  · cases h
    exact .refuse _
  · cases h
    exact .count rfl
  · split at h
    · cases h
      exact .full _ _ rfl
    · rename_i hroom
      cases h
      exact .build (not_le.mp hroom)
  · cases h
    exact .load rfl
  · cases h

theorem moves_of_delete {id : DomainId} {old : Stage} (h : handleDomainsDelete s id old = some (new, effect)) :
    Moves policy s (.delete id) old new effect := by
  unfold handleDomainsDelete at h
  split at h
  · split at h
    · cases h
      exact .missing _ (.inl rfl)
    · rename_i d hd
      cases h
      exact .hold (.inl ⟨rfl, rfl⟩) (.inl rfl) hd
  · split at h
    · cases h
      exact .keep _
    · rename_i hsource
      cases h
      exact .agree hsource
  · cases h
    exact .remove
  · cases h

theorem moves_of_read {id : DomainId} {b : Bool} {old : Stage} (h : resolveDomain s id b old = some (new, effect)) :
    Moves policy s (.read id b) old new effect := by
  unfold resolveDomain at h
  split at h
  · split at h
    · rename_i d hd
      cases h
      exact .hold (.inr ⟨b, rfl⟩) (.inl rfl) hd
    · split at h
      · cases h
        exact .fallback
      · cases h
        exact .missing _ (.inr ⟨b, rfl⟩)
  · split at h
    · rename_i d hd
      cases h
      exact .hold (.inr ⟨b, rfl⟩) (.inr rfl) hd
    · rename_i hd
      cases h
      exact .panic hd
  · cases h
    exact .read
  · cases h

theorem moves_of_boot {old : Stage} (h : bootDomains policy s old = some (new, effect)) :
    Moves policy s .boot old new effect := by
  unfold bootDomains at h
  split at h
  · cases h
    exact .booted
  · split at h
    · cases h
      exact .pass
    · split at h
      · cases h
        exact .pass
      · rename_i hne
        split at h
        · cases h
          exact .pass
        · split at h
          · cases h
            exact .pass
          · rename_i hseen
            cases h
            exact .start hne hseen
  · cases h
    exact .started _ rfl
  · cases h
    exact .abort _
  · obtain ⟨sp', hsp, he⟩ := Option.map_eq_some_iff.mp h
    cases he
    exact .starting (skip_eq_some hsp)
  · cases h

theorem moves_of_advance (h : t.advance policy s = some (new, effect)) : Moves policy s t.job t.stage new effect := by
  obtain ⟨job, stage⟩ := t
  cases job with
  | boot => exact moves_of_boot h
  | create => exact moves_of_create h
  | load => exact moves_of_load h
  | delete => exact moves_of_delete h
  | read => exact moves_of_read h
  | refused => cases h

theorem moves_of_answered {ans : Except String ℕ} (h : t.answered s ans = some new) :
    Moves policy s t.job t.stage new .quiet := by
  obtain ⟨job, stage⟩ := t
  unfold Task.answered at h
  split at h
  · rename_i hjob hstage
    simp only at hjob hstage
    subst hjob hstage
    split at h
    · cases h
    · rename_i ask hask
      split at h
      · rename_i hg
        cases h
        exact .spawn (.answer _ ans ⟨⟨ask, hask, hg⟩⟩)
      · cases h
  · rename_i hjob hstage
    simp only at hjob hstage
    subst hjob hstage
    split at h
    · cases h
    · rename_i ask hask
      split at h
      · rename_i hg
        cases h
        exact .starting (.answer _ ans ⟨⟨ask, hask, hg⟩⟩)
      · cases h
  · cases h

/-- A request joins the tasks, or a socket is freed, or a task moves. -/
theorem moves_of_step {a : DomainAct} (h : s.step policy a = some s') :
    (∃ r : Request, s.booted = true ∧ s' = { s with tasks := s.tasks ++ [r.accept] }) ∨
    (∃ x ∈ s.closing, s' = s.freed x) ∨
    ∃ i t new effect, s.tasks[i]? = some t ∧ Moves policy s t.job t.stage new effect ∧ s' = s.perform i t new effect := by
  cases a with
  | request r =>
    simp only [DomainsRun.step] at h
    split at h
    · rename_i hb
      exact .inl ⟨r, hb, (Option.some.inj h).symm⟩
    · cases h
  | run i =>
    simp only [DomainsRun.step] at h
    split at h
    · cases h
    · rename_i t ht
      obtain ⟨⟨new, effect⟩, hadv, rfl⟩ := Option.map_eq_some_iff.mp h
      exact .inr (.inr ⟨i, t, new, effect, ht, moves_of_advance hadv, rfl⟩)
  | host i ans =>
    simp only [DomainsRun.step] at h
    split at h
    · cases h
    · rename_i t ht
      obtain ⟨new, hans, rfl⟩ := Option.map_eq_some_iff.mp h
      exact .inr (.inr ⟨i, t, new, .quiet, ht, moves_of_answered hans, rfl⟩)
  | stopped x =>
    simp only [DomainsRun.step] at h
    split at h
    · rename_i hx
      exact .inr (.inl ⟨x, hx, (Option.some.inj h).symm⟩)
    · cases h

/-! ### The registry and the counts -/

theorem mem_list {d : Domain} : d ∈ s.list ↔ ∃ id, s.registry.get? id = some d := by
  unfold DomainsRun.list
  rw [List.mem_map]
  refine ⟨fun h => ?_, fun h => ?_⟩
  · obtain ⟨⟨id, d'⟩, hm, rfl⟩ := h
    exact ⟨id, FMap.mem_iff.mp hm⟩
  · obtain ⟨id, hid⟩ := h
    exact ⟨(id, d), FMap.mem_iff.mpr hid, rfl⟩

/-- An insert under a free name adds to the list. -/
theorem list_insert {m : FMap DomainId Domain} {id : DomainId} (d : Domain) (h : m.get? id = none) :
    (m.insert id d).entries.map Prod.snd = d :: m.entries.map Prod.snd := by
  have he := FMap.entries_erase_of_none h
  change d :: (m.erase id).entries.map Prod.snd = _
  rw [he]

theorem apiCreated_erase (m : FMap DomainId Domain) (id : DomainId) :
    apiCreated ((m.erase id).entries.map Prod.snd) ≤ apiCreated (m.entries.map Prod.snd) :=
  (List.filter_sublist.map _).countP_le

theorem apiCreated_cons (d : Domain) (ds : List Domain) :
    apiCreated (d :: ds) = apiCreated ds + if d.config.source ≠ .config then 1 else 0 := by
  unfold apiCreated
  rw [List.countP_cons]
  congr 1
  simp

theorem perform_tasks : (s.perform i t new effect).tasks = s.tasks.set i ⟨t.job, new⟩ := by cases effect <;> rfl

/-! ### Locks, names and counts -/

namespace Stage

/-- It holds the create lock. -/
def locked : Stage → Bool
  | .checking => true
  | .found _ => true
  | .absent => true
  | .counted _ => true
  | .spawning _ => true
  | .building => true
  | _ => false

/-- It has found its name free. -/
def claims : Stage → Bool
  | .absent => true
  | .counted _ => true
  | .spawning _ => true
  | .building => true
  | _ => false

/-- It has found room. -/
def counts : Stage → Bool
  | .spawning _ => true
  | .building => true
  | _ => false

/-- A delete that has seen a domain it may remove. -/
def condemns : Stage → Bool
  | .holding d => decide (d.config.source ≠ .config)
  | .removing => true
  | _ => false

/-- The names the boot loop has started, while it runs. -/
def seen? : Stage → Option (List DomainId)
  | .boot _ seen => some seen
  | .starting _ _ _ seen _ => some seen
  | _ => none

theorem locked_of_claims {st : Stage} (h : st.claims = true) : st.locked = true := by
  cases st <;> first | rfl | cases h

theorem locked_of_counts {st : Stage} (h : st.counts = true) : st.locked = true := by
  cases st <;> first | rfl | cases h

theorem condemns_of_locked {st : Stage} (h : st.locked = true) : st.condemns = false ∧ st.seen? = none := by
  cases st <;> first | exact ⟨rfl, rfl⟩ | cases h

theorem locked_of_seen {st : Stage} {seen : List DomainId} (h : st.seen? = some seen) :
    st.locked = false ∧ st.condemns = false := by
  cases st <;> first | exact ⟨rfl, rfl⟩ | cases h

end Stage

/-- What holds of task `i`: it is locked exactly if it holds the lock; a name
it has claimed stays free, and the room it has found stays; a delete that is
to remove a name removes no declared domain; and while the boot loop runs it
is alone, every name is one it has started, and the next is none of them. -/
structure TaskOk (policy : DomainPolicy) (s : DomainsRun) (i : ℕ) (t : Task) : Prop where
  locked : t.stage.locked = true ↔ s.lock = some i
  absent : t.stage.claims = true → ∀ id, t.job.claims = some id → s.registry.get? id = none
  counted : ∀ ds, t.stage = .counted ds → apiCreated s.list ≤ apiCreated ds
  room : t.stage.counts = true → apiCreated s.list < policy.maxDomains
  deletes : ∀ id, t.job = .delete id → t.stage.condemns = true → ∀ d, s.registry.get? id = some d → d.config.source ≠ .config
  boots : ∀ seen, t.stage.seen? = some seen → s.tasks.length = 1 ∧ s.lock = none ∧
    ∀ id d, s.registry.get? id = some d → id = .default ∨ id ∈ seen
  starts : ∀ cd id todo seen sp, t.stage = .starting cd id todo seen sp → id ≠ .default ∧ id ∉ seen
  calm : t.stage ≠ .panicked

/-- What holds of every state. -/
structure Ordered (policy : DomainPolicy) (s : DomainsRun) : Prop where
  named : ∀ id d, s.registry.get? id = some d → d.config.name = id
  default : ∃ d, s.registry.get? .default = some d ∧ d.config.source = .config
  within : apiCreated s.list ≤ policy.maxDomains
  holder : ∀ i, s.lock = some i → i < s.tasks.length
  tasks : ∀ i t, s.tasks[i]? = some t → TaskOk policy s i t

/-- A task that neither holds the lock nor boots. -/
theorem TaskOk.idle (hlocked : t.stage.locked = false) (hlock : s.lock ≠ some i) (hseen : t.stage.seen? = none)
    (hdel : ∀ id, t.job = .delete id → t.stage.condemns = true → ∀ d, s.registry.get? id = some d → d.config.source ≠ .config)
    (hcalm : t.stage ≠ .panicked) : TaskOk policy s i t where
  locked := ⟨fun h => absurd (hlocked.symm.trans h) Bool.false_ne_true, fun h => absurd h hlock⟩
  absent h := absurd (hlocked.symm.trans (Stage.locked_of_claims h)) Bool.false_ne_true
  counted ds h := by
    rw [h] at hlocked
    cases hlocked
  room h := absurd (hlocked.symm.trans (Stage.locked_of_counts h)) Bool.false_ne_true
  deletes := hdel
  boots seen h := by
    rw [hseen] at h
    cases h
  starts cd id todo seen sp h := by
    rw [h] at hseen
    cases hseen
  calm := hcalm

/-- A task is left as it is where names only go. -/
theorem TaskOk.keep (h : TaskOk policy s i t) (hlen : s'.tasks.length = s.tasks.length)
    (hlock : s'.lock = some i ↔ s.lock = some i) (hboots : t.stage.seen? ≠ none → s'.lock = none)
    (hsub : ∀ id d, s'.registry.get? id = some d → s.registry.get? id = some d)
    (hcount : apiCreated s'.list ≤ apiCreated s.list) : TaskOk policy s' i t where
  locked := h.locked.trans hlock.symm
  absent hc id hid := by
    by_contra hne
    obtain ⟨d, hd⟩ := Option.ne_none_iff_exists'.mp hne
    have hold := hsub id d hd
    rw [h.absent hc id hid] at hold
    cases hold
  counted ds hds := hcount.trans (h.counted ds hds)
  room hc := lt_of_le_of_lt hcount (h.room hc)
  deletes id hid hc d hd := h.deletes id hid hc d (hsub id d hd)
  boots seen hs := by
    obtain ⟨hone, -, hnames⟩ := h.boots seen hs
    refine ⟨hlen.trans hone, hboots ?_, fun id d hd => hnames id d (hsub id d hd)⟩
    rw [hs]
    exact Option.some_ne_none seen
  starts := h.starts
  calm := h.calm

/-- Beside a task that holds the lock or boots, the others do neither. -/
theorem Ordered.alone (h : Ordered policy s) (hi : s.tasks[i]? = some t) (hex : t.stage.locked = true ∨ t.stage.seen? ≠ none)
    {j : ℕ} {u : Task} (hj : s.tasks[j]? = some u) (hne : j ≠ i) :
    u.stage.locked = false ∧ u.stage.seen? = none ∧ ∀ seen, t.stage.seen? ≠ some seen := by
  have hone : ∀ (k : ℕ) (v : Task), s.tasks[k]? = some v → ∀ seen, v.stage.seen? = some seen → i = j := fun k v hk seen hs => by
    have hlen := ((h.tasks k v hk).boots seen hs).1
    have hli := (List.getElem?_eq_some_iff.mp hi).1
    have hlj := (List.getElem?_eq_some_iff.mp hj).1
    omega
  have hquiet : ∀ seen, t.stage.seen? ≠ some seen := fun seen hs => hne (hone i t hi seen hs).symm
  have hu : u.stage.seen? = none := by
    by_contra hs
    obtain ⟨seen, hs⟩ := Option.ne_none_iff_exists'.mp hs
    exact hne (hone j u hj seen hs).symm
  refine ⟨?_, hu, hquiet⟩
  rcases hex with hlocked | hs
  · have hlock := (h.tasks i t hi).locked.mp hlocked
    by_contra hl
    have hlock' := (h.tasks j u hj).locked.mp (Bool.not_eq_false _ ▸ hl)
    rw [hlock] at hlock'
    exact hne (Option.some.inj hlock').symm
  · obtain ⟨seen, hs⟩ := Option.ne_none_iff_exists'.mp hs
    exact absurd hs (hquiet seen)

/-- A task that moves on, and the others. -/
theorem forall_tasks_set {P : ℕ → Task → Prop} (htasks : s'.tasks = s.tasks.set i t) (hnew : P i t)
    (hold : ∀ j u, s.tasks[j]? = some u → j ≠ i → P j u) : ∀ j u, s'.tasks[j]? = some u → P j u := by
  rw [htasks]
  exact forall_slots_set hnew hold

/-- A step that leaves the names. -/
theorem Ordered.leave (h : Ordered policy s) (hi : s.tasks[i]? = some t) {x : Task} (htasks : s'.tasks = s.tasks.set i x)
    (hreg : s'.registry = s.registry) (hnew : TaskOk policy s' i x)
    (hlock : ∀ j, j ≠ i → (s'.lock = some j ↔ s.lock = some j))
    (hboots : ∀ j u, s.tasks[j]? = some u → j ≠ i → u.stage.seen? ≠ none → s'.lock = none) : Ordered policy s' where
  named := hreg ▸ h.named
  default := hreg ▸ h.default
  within := by
    unfold DomainsRun.list
    rw [hreg]
    exact h.within
  holder j hj := by
    rw [htasks, List.length_set]
    by_cases hji : j = i
    · subst hji
      exact (List.getElem?_eq_some_iff.mp hi).1
    · exact h.holder j ((hlock j hji).mp hj)
  tasks := forall_tasks_set htasks hnew fun j u hj hne =>
    (h.tasks j u hj).keep (by rw [htasks, List.length_set]) (hlock j hne) (hboots j u hj hne)
      (fun id d hd => hreg ▸ hd) (by unfold DomainsRun.list; rw [hreg])

/-- A task moves on quietly. -/
theorem Ordered.quiet (h : Ordered policy s) (hi : s.tasks[i]? = some t) (hnew : TaskOk policy (s.perform i t new .quiet) i ⟨t.job, new⟩) :
    Ordered policy (s.perform i t new .quiet) :=
  h.leave hi perform_tasks rfl hnew (fun _ _ => Iff.rfl) fun j u hj _ hs => by
    obtain ⟨seen, hs⟩ := Option.ne_none_iff_exists'.mp hs
    exact ((h.tasks j u hj).boots seen hs).2.1

theorem Ordered.acquire (h : Ordered policy s) (hi : s.tasks[i]? = some t) (hlock : s.lock = none)
    (hnew : TaskOk policy (s.perform i t new .acquire) i ⟨t.job, new⟩) : Ordered policy (s.perform i t new .acquire) := by
  refine h.leave hi perform_tasks rfl hnew (fun j hne => ?_) fun j u hj hne hs => ?_
  · change some i = some j ↔ s.lock = some j
    rw [hlock]
    exact ⟨fun he => absurd (Option.some.inj he).symm hne, fun he => by cases he⟩
  · obtain ⟨seen, hs⟩ := Option.ne_none_iff_exists'.mp hs
    have hlen := ((h.tasks j u hj).boots seen hs).1
    have hli := (List.getElem?_eq_some_iff.mp hi).1
    have hlj := (List.getElem?_eq_some_iff.mp hj).1
    omega

theorem Ordered.release (h : Ordered policy s) (hi : s.tasks[i]? = some t) (hlocked : t.stage.locked = true)
    (hidle : new.locked = false ∧ new.seen? = none ∧ new.condemns = false ∧ new ≠ .panicked) :
    Ordered policy (s.perform i t new .release) := by
  have hlock : s.lock = some i := (h.tasks i t hi).locked.mp hlocked
  have hfree : (s.perform i t new .release).lock = none := by
    change (if s.lock = some i then none else s.lock) = none
    rw [if_pos hlock]
  refine h.leave hi perform_tasks rfl ?_ (fun j hne => ?_) fun j u hj hne hs => hfree
  · refine .idle hidle.1 (by simp [hfree]) hidle.2.1 (fun id _ hc => ?_) hidle.2.2.2
    exact absurd (hidle.2.2.1.symm.trans hc) Bool.false_ne_true
  · rw [hfree, hlock]
    exact ⟨fun he => (by cases he), fun he => absurd (Option.some.inj he).symm hne⟩

/-- A create or a load inserts its domain. -/
theorem Ordered.publish (h : Ordered policy s) (hi : s.tasks[i]? = some t) {d : Domain}
    (hclaims : t.job.claims = some d.config.name) (hcounts : t.stage.claims = true ∧ t.stage.counts = true)
    (hsource : d.config.source = .ephemeral) {r : Reply} :
    s.registry.get? d.config.name = none ∧ Ordered policy (s.perform i t (.done r) (.publish d)) := by
  have hok := h.tasks i t hi
  have hlocked := Stage.locked_of_claims hcounts.1
  have hlock : s.lock = some i := hok.locked.mp hlocked
  have hnone := hok.absent hcounts.1 _ hclaims
  have hfree : (s.perform i t (.done r) (.publish d)).lock = none := by
    change (if s.lock = some i then none else s.lock) = none
    rw [if_pos hlock]
  have hget : ∀ id, (s.perform i t (.done r) (.publish d)).registry.get? id =
      if id = d.config.name then some d else s.registry.get? id := fun id => FMap.get?_insert ..
  refine ⟨hnone, fun id d' hd' => ?_, ?_, ?_, fun j hj => ?_, forall_tasks_set perform_tasks ?_ fun j u hj hne => ?_⟩
  · rw [hget] at hd'
    split at hd'
    · rename_i he
      obtain rfl := Option.some.inj hd'
      exact he.symm
    · exact h.named id d' hd'
  · obtain ⟨d', hd', hc⟩ := h.default
    refine ⟨d', ?_, hc⟩
    rw [hget, if_neg, hd']
    intro he
    rw [← he, hd'] at hnone
    cases hnone
  · have hlist : (s.perform i t (.done r) (.publish d)).list = d :: s.list := list_insert d hnone
    rw [hlist, apiCreated_cons, hsource]
    have := hok.room hcounts.2
    simpa using Nat.succ_le_of_lt this
  · rw [hfree] at hj
    cases hj
  · refine .idle rfl ?_ rfl (fun id _ hc => (by cases hc)) (by simp)
    rw [hfree]
    simp
  · obtain ⟨hl, hs, -⟩ := h.alone hi (.inl hlocked) hj hne
    refine .idle hl ?_ hs (fun id hid hc d' hd' => ?_) (h.tasks j u hj).calm
    · rw [hfree]
      simp
    · rw [hget] at hd'
      split at hd'
      · obtain rfl := Option.some.inj hd'
        rw [hsource]
        simp
      · exact (h.tasks j u hj).deletes id hid hc d' hd'

/-- The boot loop inserts a declared domain. -/
theorem Ordered.starts (h : Ordered policy s) (hi : s.tasks[i]? = some t) {cd : ConfigDomain} {id : DomainId}
    {todo : List ConfigDomain} {seen : List DomainId} {sp : Spawn} (ht : t.stage = .starting cd id todo seen sp) {d : Domain}
    (hname : d.config.name = id) (hsource : d.config.source = .config) :
    s.registry.get? d.config.name = none ∧ Ordered policy (s.perform i t (.boot todo (id :: seen)) (.publish d)) := by
  subst hname
  have hok := h.tasks i t hi
  have hseen : t.stage.seen? = some seen := by rw [ht]; rfl
  obtain ⟨hone, hlock, hnames⟩ := hok.boots seen hseen
  obtain ⟨hne, hnew⟩ := hok.starts cd _ todo seen sp ht
  have hnone : s.registry.get? d.config.name = none := by
    by_contra hsome
    obtain ⟨d', hd'⟩ := Option.ne_none_iff_exists'.mp hsome
    exact (hnames _ d' hd').elim hne hnew
  have hfree : (s.perform i t (.boot todo (d.config.name :: seen)) (.publish d)).lock = none := by
    change (if s.lock = some i then none else s.lock) = none
    rw [hlock]
    rfl
  have hget : ∀ id, (s.perform i t (.boot todo (d.config.name :: seen)) (.publish d)).registry.get? id =
      if id = d.config.name then some d else s.registry.get? id := fun id => FMap.get?_insert ..
  refine ⟨hnone, fun id d' hd' => ?_, ?_, ?_, fun j hj => ?_, forall_tasks_set perform_tasks ?_ fun j u hj hij => ?_⟩
  · rw [hget] at hd'
    split at hd'
    · rename_i he
      obtain rfl := Option.some.inj hd'
      exact he.symm
    · exact h.named id d' hd'
  · obtain ⟨d', hd', hc⟩ := h.default
    refine ⟨d', ?_, hc⟩
    rw [hget, if_neg (fun he => hne he.symm), hd']
  · have hlist : (s.perform i t (.boot todo (d.config.name :: seen)) (.publish d)).list = d :: s.list :=
      list_insert d hnone
    rw [hlist, apiCreated_cons, hsource]
    simpa using h.within
  · rw [hfree] at hj
    cases hj
  · refine ⟨?_, fun hc => (by cases hc), fun ds hds => (by cases hds), fun hc => (by cases hc), fun _ _ hc => (by cases hc),
      fun seen' hs => ?_, fun _ _ _ _ _ hs => (by cases hs), by simp⟩
    · rw [hfree]
      simp [Stage.locked]
    · obtain rfl := Option.some.inj hs
      refine ⟨by rw [perform_tasks, List.length_set, hone], hfree, fun id d' hd' => ?_⟩
      rw [hget] at hd'
      split at hd'
      · rename_i he
        exact .inr (he ▸ List.mem_cons_self)
      · exact (hnames id d' hd').imp_right (List.mem_cons_of_mem _)
  · exact absurd hseen ((h.alone hi (.inr (by simp [hseen])) hj hij).2.2 seen)

/-- A delete removes the name it was to remove. -/
theorem Ordered.remove (h : Ordered policy s) (hi : s.tasks[i]? = some t) {id : DomainId} (hjob : t.job = .delete id)
    (ht : t.stage = .removing) {r : Reply} : Ordered policy (s.perform i t (.done r) (.remove id)) := by
  have hok := h.tasks i t hi
  have hget : ∀ id', (s.perform i t (.done r) (.remove id)).registry.get? id' =
      if id' = id then none else s.registry.get? id' := fun id' => FMap.get?_erase ..
  have hsub : ∀ id' d, (s.perform i t (.done r) (.remove id)).registry.get? id' = some d → s.registry.get? id' = some d :=
    fun id' d hd => by
      rw [hget] at hd
      split at hd
      · cases hd
      · exact hd
  have hcount : apiCreated (s.perform i t (.done r) (.remove id)).list ≤ apiCreated s.list := apiCreated_erase ..
  have hdel := hok.deletes id hjob (by rw [ht]; rfl)
  refine ⟨fun id' d hd => h.named id' d (hsub id' d hd), ?_, hcount.trans h.within,
    fun j hj => ?_, forall_tasks_set perform_tasks ?_ fun j u hj hne => ?_⟩
  · obtain ⟨d, hd, hc⟩ := h.default
    refine ⟨d, ?_, hc⟩
    rw [hget, if_neg, hd]
    rintro rfl
    exact hdel d hd hc
  · rw [perform_tasks, List.length_set]
    exact h.holder j hj
  · refine .idle rfl (fun hl => ?_) rfl (fun _ _ hc => (by cases hc)) (by simp)
    have hlocked := hok.locked.mpr hl
    rw [ht] at hlocked
    cases hlocked
  · refine (h.tasks j u hj).keep (by rw [perform_tasks, List.length_set]) Iff.rfl (fun hs => ?_) hsub hcount
    obtain ⟨seen, hs⟩ := Option.ne_none_iff_exists'.mp hs
    exact ((h.tasks j u hj).boots seen hs).2.1

/-- The holder of the lock moves on with it. -/
theorem Ordered.holds (h : Ordered policy s) (hi : s.tasks[i]? = some t) (ht : t.stage.locked = true)
    (hnew : new.locked = true) (habsent : new.claims = true → ∀ id, t.job.claims = some id → s.registry.get? id = none)
    (hcounted : ∀ ds, new = .counted ds → apiCreated s.list ≤ apiCreated ds)
    (hroom : new.counts = true → apiCreated s.list < policy.maxDomains) : Ordered policy (s.perform i t new .quiet) := by
  refine h.quiet hi ⟨⟨fun _ => (h.tasks i t hi).locked.mp ht, fun _ => hnew⟩, habsent, hcounted, hroom, fun id _ hc => ?_,
    fun seen hs => ?_, fun cd id todo seen sp hs => ?_, ?_⟩
  · exact absurd ((Stage.condemns_of_locked hnew).1.symm.trans hc) Bool.false_ne_true
  · cases (Stage.condemns_of_locked hnew).2.symm.trans hs
  · rw [show new = .starting cd id todo seen sp from hs] at hnew
    cases hnew
  · rintro rfl
    cases hnew

/-- A task without the lock moves on without it. -/
theorem Ordered.frees (h : Ordered policy s) (hi : s.tasks[i]? = some t) (ht : t.stage.locked = false)
    (hnew : new.locked = false) (hseen : new.seen? = none)
    (hdel : ∀ id, t.job = .delete id → new.condemns = true → ∀ d, s.registry.get? id = some d → d.config.source ≠ .config)
    (hcalm : new ≠ .panicked) : Ordered policy (s.perform i t new .quiet) := by
  refine h.quiet hi (.idle hnew (fun hl => ?_) hseen hdel hcalm)
  have hlocked := (h.tasks i t hi).locked.mpr hl
  rw [ht] at hlocked
  cases hlocked

/-- The boot loop moves on among the same names. -/
theorem Ordered.loops (h : Ordered policy s) (hi : s.tasks[i]? = some t) {seen : List DomainId} (ht : t.stage.seen? = some seen)
    (hnew : new.seen? = some seen)
    (hstarts : ∀ cd id todo seen sp, new = .starting cd id todo seen sp → id ≠ .default ∧ id ∉ seen) :
    Ordered policy (s.perform i t new .quiet) := by
  obtain ⟨hone, hlock, hnames⟩ := (h.tasks i t hi).boots seen ht
  have hfree := (Stage.locked_of_seen hnew).1
  refine h.quiet hi ⟨⟨fun hl => ?_, fun hl => ?_⟩, fun hc => ?_, fun ds hds => ?_, fun hc => ?_, fun _ _ hc => ?_, fun seen' hs => ?_,
    hstarts, ?_⟩
  · exact absurd (hfree.symm.trans hl) Bool.false_ne_true
  · change s.lock = some i at hl
    rw [hlock] at hl
    cases hl
  · exact absurd (hfree.symm.trans (Stage.locked_of_claims hc)) Bool.false_ne_true
  · rw [show new = .counted ds from hds] at hnew
    cases hnew
  · exact absurd (hfree.symm.trans (Stage.locked_of_counts hc)) Bool.false_ne_true
  · exact absurd ((Stage.locked_of_seen hnew).2.symm.trans hc) Bool.false_ne_true
  · obtain rfl := Option.some.inj (hnew.symm.trans hs)
    exact ⟨by rw [perform_tasks, List.length_set, hone], hlock, hnames⟩
  · rintro rfl
    cases hnew

/-- What a move does to the names: nothing, an insert under a free one, or the
removal of a domain that was not declared. -/
inductive Renames (s s' : DomainsRun) : Prop
  | same : s'.registry = s.registry → s'.made = s.made → Renames s s'
  | insert (d : Domain) : s.registry.get? d.config.name = none → d.inst = s.made → s'.made = s.made + 1 →
      s'.registry = s.registry.insert d.config.name d → Renames s s'
  | erase (id : DomainId) : (∀ d, s.registry.get? id = some d → d.config.source ≠ .config) → s'.made = s.made →
      s'.registry = s.registry.erase id → Renames s s'

/-- The step lemma. -/
theorem Ordered.moves (h : Ordered policy s) (hi : s.tasks[i]? = some t) (hm : Moves policy s t.job t.stage new effect) :
    Ordered policy (s.perform i t new effect) ∧ Renames s (s.perform i t new effect) := by
  have hok := h.tasks i t hi
  obtain ⟨job, stage⟩ := t
  simp only at hm
  cases hm with
  | acquire hjob hlock =>
    refine ⟨h.acquire hi hlock ⟨⟨fun _ => rfl, fun _ => rfl⟩, fun hc => (by cases hc), fun _ hc => (by cases hc),
      fun hc => (by cases hc), fun _ _ hc => (by cases hc), fun _ hc => (by cases hc), fun _ _ _ _ _ hc => (by cases hc), by simp⟩,
      .same rfl rfl⟩
  | found hjob hd =>
    exact ⟨h.holds hi rfl rfl (fun hc => (by cases hc)) (fun _ hc => (by cases hc)) fun hc => (by cases hc), .same rfl rfl⟩
  | absent hjob hnone =>
    refine ⟨h.holds hi rfl rfl (fun _ id hid => ?_) (fun _ hc => (by cases hc)) fun hc => (by cases hc), .same rfl rfl⟩
    obtain rfl := Option.some.inj (hjob.symm.trans hid)
    exact hnone
  | ensure d =>
    exact ⟨h.release hi rfl ⟨rfl, rfl, rfl, by simp⟩, .same rfl rfl⟩
  | refuse d => exact ⟨h.release hi rfl ⟨rfl, rfl, rfl, by simp⟩, .same rfl rfl⟩
  | count hjob =>
    refine ⟨h.holds hi rfl rfl (fun _ => hok.absent rfl) (fun ds hds => ?_) fun hc => (by cases hc), .same rfl rfl⟩
    obtain rfl := Stage.counted.inj hds
    exact le_refl _
  | full ds e hjob => exact ⟨h.release hi rfl ⟨rfl, rfl, rfl, by simp⟩, .same rfl rfl⟩
  | room hroom =>
    exact ⟨h.holds hi rfl rfl (fun _ => hok.absent rfl) (fun _ hc => (by cases hc)) fun _ =>
      lt_of_le_of_lt (hok.counted _ rfl) hroom, .same rfl rfl⟩
  | build hroom =>
    exact ⟨h.holds hi rfl rfl (fun _ => hok.absent rfl) (fun _ hc => (by cases hc)) fun _ =>
      lt_of_le_of_lt (hok.counted _ rfl) hroom, .same rfl rfl⟩
  | spawn hsp =>
    exact ⟨h.holds hi rfl rfl (fun _ => hok.absent rfl) (fun _ hc => (by cases hc)) fun _ => hok.room rfl, .same rfl rfl⟩
  | fail e => exact ⟨h.release hi rfl ⟨rfl, rfl, rfl, by simp⟩, .same rfl rfl⟩
  | create r hd =>
    subst hd
    obtain ⟨hnone, hord⟩ := h.publish hi (d := spawnedDomain _ _ r _ _ .ephemeral) rfl ⟨rfl, rfl⟩ rfl
    exact ⟨hord, .insert _ hnone rfl rfl rfl⟩
  | @load id c _ hd =>
    subst hd
    obtain ⟨hnone, hord⟩ := h.publish hi (d := caseDomain s.made id c) rfl ⟨rfl, rfl⟩ rfl
    exact ⟨hord, .insert _ hnone rfl rfl rfl⟩
  | missing e hjob =>
    exact ⟨h.frees hi rfl rfl rfl (fun _ _ hc => (by cases hc)) (by simp), .same rfl rfl⟩
  | @hold _ id id' old d hjob hold hd =>
    have hl : stage.locked = false := by rcases hold with rfl | rfl <;> rfl
    refine ⟨h.frees hi hl rfl rfl (fun id'' hdel hc d' hd' => ?_) (by simp), .same rfl rfl⟩
    rcases hjob with ⟨rfl, rfl⟩ | ⟨b, rfl⟩
    · obtain rfl := Job.delete.inj hdel
      obtain rfl := Option.some.inj (hd.symm.trans hd')
      exact of_decide_eq_true hc
    · cases hdel
  | keep e => exact ⟨h.frees hi rfl rfl rfl (fun _ _ hc => (by cases hc)) (by simp), .same rfl rfl⟩
  | agree hsource =>
    exact ⟨h.frees hi rfl rfl rfl (fun id' hdel _ => hok.deletes id' hdel (decide_eq_true hsource)) (by simp), .same rfl rfl⟩
  | remove =>
    exact ⟨h.remove hi rfl rfl, .erase _ (hok.deletes _ rfl rfl) rfl rfl⟩
  | fallback => exact ⟨h.frees hi rfl rfl rfl (fun _ _ hc => (by cases hc)) (by simp), .same rfl rfl⟩
  | panic hnone =>
    obtain ⟨d, hd, -⟩ := h.default
    rw [hnone] at hd
    cases hd
  | read => exact ⟨h.frees hi rfl rfl rfl (fun _ _ hc => (by cases hc)) (by simp), .same rfl rfl⟩
  | booted => exact ⟨h.frees hi rfl rfl rfl (fun _ _ hc => (by cases hc)) (by simp), .same rfl rfl⟩
  | pass => exact ⟨h.loops hi rfl rfl fun _ _ _ _ _ hc => (by cases hc), .same rfl rfl⟩
  | start hne hseen =>
    refine ⟨h.loops hi rfl rfl fun _ _ _ _ _ hc => ?_, .same rfl rfl⟩
    obtain ⟨-, rfl, -, rfl, -⟩ := Stage.starting.inj hc
    exact ⟨hne, hseen⟩
  | starting hsp =>
    refine ⟨h.loops hi rfl rfl fun _ _ _ _ _ hc => ?_, .same rfl rfl⟩
    obtain ⟨rfl, rfl, rfl, rfl, -⟩ := Stage.starting.inj hc
    exact hok.starts _ _ _ _ _ rfl
  | abort e => exact ⟨h.loops hi rfl rfl fun _ _ _ _ _ hc => (by cases hc), .same rfl rfl⟩
  | @started cd id todo seen r _ hd =>
    subst hd
    obtain ⟨hnone, hord⟩ := h.starts hi rfl (d := spawnedDomain _ id r _ _ .config) rfl rfl
    exact ⟨hord, .insert _ hnone rfl rfl rfl⟩

/-! ### Runs -/

/-- A new request holds nothing and waits for nothing yet. -/
theorem accept_idle (r : Request) : r.accept.stage.locked = false ∧ r.accept.stage.seen? = none ∧
    r.accept.stage.condemns = false ∧ r.accept.stage ≠ .panicked := by
  unfold Request.accept
  split
  · split <;> exact ⟨rfl, rfl, rfl, by simp⟩
  · split
    · exact ⟨rfl, rfl, rfl, by simp⟩
    · split <;> exact ⟨rfl, rfl, rfl, by simp⟩
  · split <;> exact ⟨rfl, rfl, rfl, by simp⟩
  · exact ⟨rfl, rfl, rfl, by simp⟩

theorem seen_of_booted (h : s.booted = true) {t : Task} (ht : t ∈ s.tasks) : t.stage.seen? = none := by
  have hb := List.all_eq_true.mp h t ht
  obtain ⟨job, stage⟩ := t
  cases stage <;> first | rfl | cases hb

/-- The task at an index of the list with one more. -/
theorem task_of_concat {ts : List Task} {x : Task} (h : (ts ++ [x])[i]? = some t) :
    ts[i]? = some t ∨ i = ts.length ∧ t = x := by
  rw [List.getElem?_append] at h
  split at h
  · exact .inl h
  · rename_i hlt
    obtain ⟨hlen, rfl⟩ := List.getElem?_eq_some_iff.mp h
    have hone : i - ts.length < 1 := hlen
    refine .inr ⟨by omega, ?_⟩
    simp

theorem Ordered.request (h : Ordered policy s) (hb : s.booted = true) (r : Request) :
    Ordered policy { s with tasks := s.tasks ++ [r.accept] } := by
  refine ⟨h.named, h.default, h.within, fun i hi => ?_, fun i t hi => ?_⟩
  · rw [List.length_append]
    exact Nat.lt_add_right _ (h.holder i hi)
  · rcases task_of_concat hi with hi | ⟨rfl, rfl⟩
    · have hok := h.tasks i t hi
      have hseen := seen_of_booted hb (List.mem_of_getElem? hi)
      refine ⟨hok.locked, hok.absent, hok.counted, hok.room, hok.deletes, fun seen hs => ?_, hok.starts, hok.calm⟩
      rw [hseen] at hs
      cases hs
    · obtain ⟨hl, hs, hc, hp⟩ := accept_idle r
      refine .idle hl (fun hlock => ?_) hs (fun _ _ hd => absurd (hc.symm.trans hd) Bool.false_ne_true) hp
      exact absurd (h.holder _ hlock) (lt_irrefl _)

/-- A socket that is freed is no one's. -/
theorem Ordered.freed (h : Ordered policy s) (x : Socket) : Ordered policy (s.freed x) := by
  refine ⟨h.named, h.default, h.within, h.holder, fun i t hi => ?_⟩
  have hok := h.tasks i t hi
  exact ⟨hok.locked, hok.absent, hok.counted, hok.room, hok.deletes, hok.boots, hok.starts, hok.calm⟩

theorem Ordered.step (h : Ordered policy s) {a : DomainAct} (hs : s.step policy a = some s') :
    Ordered policy s' ∧ Renames s s' := by
  rcases moves_of_step hs with ⟨r, hb, rfl⟩ | ⟨x, -, rfl⟩ | ⟨i, t, new, effect, hi, hm, rfl⟩
  · exact ⟨h.request hb r, .same rfl rfl⟩
  · exact ⟨h.freed x, .same rfl rfl⟩
  · exact h.moves hi hm

section Results

variable {g grpc http : ℕ} {own : Finset Socket} {declared : List ConfigDomain}

theorem get?_init (id : DomainId) : (DomainsRun.init policy g grpc http own declared).registry.get? id =
    if id = .default then some (DomainsRun.defaultDomain policy g grpc http) else none := FMap.get?_insert ..

theorem ordered_init : Ordered policy (DomainsRun.init policy g grpc http own declared) := by
  have hget : ∀ id, (DomainsRun.init policy g grpc http own declared).registry.get? id =
      if id = .default then some (DomainsRun.defaultDomain policy g grpc http) else none := get?_init
  refine ⟨fun id d hd => ?_, ⟨DomainsRun.defaultDomain policy g grpc http, rfl, rfl⟩, Nat.zero_le _, fun i hi => (by cases hi),
    fun i t hi => ?_⟩
  · rw [hget] at hd
    split at hd
    · rename_i he
      obtain rfl := Option.some.inj hd
      exact he.symm
    · cases hd
  · have ht : t = ⟨.boot, .boot declared []⟩ := List.mem_singleton.mp (List.mem_of_getElem? hi)
    subst ht
    refine ⟨⟨fun hl => (by cases hl), fun hl => (by cases hl)⟩, fun hc => (by cases hc), fun _ hc => (by cases hc),
      fun hc => (by cases hc), fun _ hc => (by cases hc), fun seen _ => ⟨rfl, rfl, fun id d hd => ?_⟩,
      fun _ _ _ _ _ hc => (by cases hc), by simp⟩
    rw [hget] at hd
    split at hd
    · rename_i he
      exact .inl he
    · cases hd

/-- The run lemma. -/
theorem ordered_of_reach
    (h : Reach (DomainsRun.step policy) (fun _ _ => True) (DomainsRun.init policy g grpc http own declared) s) :
    Ordered policy s :=
  h.invariant ordered_init fun _ _ _ hi _ hs => (hi.step hs).1

/-- Domains in the registry were made, each once. -/
structure Stamped (s : DomainsRun) : Prop where
  below : ∀ id d, s.registry.get? id = some d → d.inst < s.made
  apart : ∀ id id' d d', s.registry.get? id = some d → s.registry.get? id' = some d' → d.inst = d'.inst → id = id'

theorem Stamped.renames (h : Stamped s) (hr : Renames s s') : Stamped s' := by
  cases hr with
  | same hreg hmade => exact ⟨by rw [hreg, hmade]; exact h.below, by rw [hreg]; exact h.apart⟩
  | insert d hnone hinst hmade hreg =>
    have hget : ∀ id, s'.registry.get? id = if id = d.config.name then some d else s.registry.get? id := fun id => by
      rw [hreg]
      exact FMap.get?_insert ..
    have hold : ∀ id d', s.registry.get? id = some d' → d'.inst ≠ d.inst := fun id d' hd' => by
      have := h.below id d' hd'
      omega
    refine ⟨fun id d' hd' => ?_, fun id id' d₁ d₂ h₁ h₂ he => ?_⟩
    · rw [hget] at hd'
      split at hd'
      · obtain rfl := Option.some.inj hd'
        omega
      · have := h.below id d' hd'
        omega
    · rw [hget] at h₁ h₂
      split at h₁ <;> split at h₂
      · rename_i hid hid'
        exact hid.trans hid'.symm
      · obtain rfl := Option.some.inj h₁
        exact absurd he.symm (hold id' d₂ h₂)
      · obtain rfl := Option.some.inj h₂
        exact absurd he (hold id d₁ h₁)
      · exact h.apart id id' d₁ d₂ h₁ h₂ he
  | erase id hsource hmade hreg =>
    have hsub : ∀ id' d, s'.registry.get? id' = some d → s.registry.get? id' = some d := fun id' d hd => by
      rw [hreg, FMap.get?_erase] at hd
      split at hd
      · cases hd
      · exact hd
    exact ⟨fun id' d hd => hmade ▸ h.below id' d (hsub id' d hd), fun id₁ id₂ d₁ d₂ h₁ h₂ he =>
      h.apart id₁ id₂ d₁ d₂ (hsub id₁ d₁ h₁) (hsub id₂ d₂ h₂) he⟩

theorem stamped_of_reach
    (h : Reach (DomainsRun.step policy) (fun _ _ => True) (DomainsRun.init policy g grpc http own declared) s) : Stamped s := by
  induction h with
  | start =>
    have hget : ∀ id, (DomainsRun.init policy g grpc http own declared).registry.get? id =
        if id = .default then some (DomainsRun.defaultDomain policy g grpc http) else none := get?_init
    refine ⟨fun id d hd => ?_, fun id id' d d' hd hd' _ => ?_⟩
    · rw [hget] at hd
      split at hd
      · obtain rfl := Option.some.inj hd
        exact Nat.one_pos
      · cases hd
    · rw [hget] at hd hd'
      split at hd <;> split at hd'
      · rename_i he he'
        exact he.trans he'.symm
      · cases hd'
      · cases hd
      · cases hd
  | next hr _ hs ih => exact ih.renames ((ordered_of_reach hr).step hs).2

/-- The domain had a name and has none any more, nor ever again. -/
structure Unnamed (d : Domain) (s : DomainsRun) : Prop where
  made : d.inst < s.made
  gone : ∀ id d', s.registry.get? id = some d' → d'.inst ≠ d.inst

theorem Unnamed.renames {d : Domain} (h : Unnamed d s) (hr : Renames s s') : Unnamed d s' := by
  cases hr with
  | same hreg hmade => exact ⟨hmade ▸ h.made, hreg ▸ h.gone⟩
  | insert d₀ hnone hinst hmade hreg =>
    have hlt := h.made
    refine ⟨by omega, fun id d' hd' => ?_⟩
    rw [hreg, FMap.get?_insert] at hd'
    split at hd'
    · obtain rfl := Option.some.inj hd'
      omega
    · exact h.gone id d' hd'
  | erase id₀ hsource hmade hreg =>
    refine ⟨hmade ▸ h.made, fun id d' hd' => ?_⟩
    rw [hreg, FMap.get?_erase] at hd'
    split at hd'
    · cases hd'
    · exact h.gone id d' hd'

/-- One step leaves a domain its name, or takes it for good from one that was
not declared. -/
theorem named_or_unnamed (h : Stamped s) (hr : Renames s s') {id : DomainId} {d : Domain} (hd : s.registry.get? id = some d) :
    s'.registry.get? id = some d ∨ s'.registry.get? id = none ∧ d.config.source ≠ .config ∧ Unnamed d s' := by
  cases hr with
  | same hreg hmade =>
    rw [hreg]
    exact .inl hd
  | insert d' hnone hinst hmade hreg =>
    refine .inl ?_
    rw [hreg, FMap.get?_insert, if_neg, hd]
    rintro rfl
    rw [hnone] at hd
    cases hd
  | erase id' hsource hmade hreg =>
    by_cases he : id = id'
    · subst he
      have hnone : s'.registry.get? id = none := by
        rw [hreg, FMap.get?_erase, if_pos rfl]
      refine .inr ⟨hnone, hsource d hd, hmade ▸ h.below id d hd, fun id' d' hd' hinst => ?_⟩
      have hold : s.registry.get? id' = some d' := by
        rw [hreg, FMap.get?_erase] at hd'
        split at hd'
        · cases hd'
        · exact hd'
      obtain rfl := h.apart id' id d' d hold hd hinst
      rw [hnone] at hd'
      cases hd'
    · refine .inl ?_
      rw [hreg, FMap.get?_erase, if_neg he, hd]

/-- What takes a name from a domain is the removal of a delete of that name. -/
theorem removed_of_none {a : DomainAct} (hs : s.step policy a = some s') {id : DomainId} {d : Domain}
    (hd : s.registry.get? id = some d) (hnone : s'.registry.get? id = none) :
    ∃ i, a = .run i ∧ s.tasks[i]? = some ⟨.delete id, .removing⟩ := by
  have hstays : s'.registry = s.registry → False := fun he => by
    rw [he, hd] at hnone
    cases hnone
  cases a with
  | request r =>
    simp only [DomainsRun.step] at hs
    split at hs
    · exact (hstays (Option.some.inj hs ▸ rfl)).elim
    · cases hs
  | stopped x =>
    simp only [DomainsRun.step] at hs
    split at hs
    · exact (hstays (Option.some.inj hs ▸ rfl)).elim
    · cases hs
  | host i ans =>
    simp only [DomainsRun.step] at hs
    split at hs
    · cases hs
    · obtain ⟨new, -, rfl⟩ := Option.map_eq_some_iff.mp hs
      exact (hstays rfl).elim
  | run i =>
    simp only [DomainsRun.step] at hs
    split at hs
    · cases hs
    · rename_i t ht
      obtain ⟨⟨new, effect⟩, hadv, rfl⟩ := Option.map_eq_some_iff.mp hs
      refine ⟨i, rfl, ?_⟩
      have hm := moves_of_advance hadv
      obtain ⟨job, stage⟩ := t
      cases effect with
      | publish d' =>
        have hget : (s.registry.insert d'.config.name d').get? id = none := hnone
        rw [FMap.get?_insert] at hget
        split at hget
        · cases hget
        · rw [hd] at hget
          cases hget
      | remove id' =>
        have hget : (s.registry.erase id').get? id = none := hnone
        rw [FMap.get?_erase] at hget
        split at hget
        · rename_i he
          subst he
          cases hm
          exact ht
        · rw [hd] at hget
          cases hget
      | _ => exact (hstays rfl).elim

/-- On the way a delete of the name came to the domain, and removed it. -/
def LostToDelete (policy : DomainPolicy) (s : DomainsRun) (acts : List DomainAct) (id : DomainId) (d : Domain) : Prop :=
  ∃ before i after s₁, acts = before ++ .run i :: after ∧ runActs (DomainsRun.step policy) s before = some s₁ ∧
    s₁.registry.get? id = some d ∧ s₁.tasks[i]? = some ⟨.delete id, .removing⟩

theorem LostToDelete.cons {a : DomainAct} (hs : s.step policy a = some s') {acts : List DomainAct} {id : DomainId} {d : Domain}
    (h : LostToDelete policy s' acts id d) : LostToDelete policy s (a :: acts) id d := by
  obtain ⟨before, i, after, s₁, rfl, hrun, hd, hi⟩ := h
  refine ⟨a :: before, i, after, s₁, rfl, ?_, hd, hi⟩
  simp only [runActs, hs, hrun]

/-- A domain without a name gets none in any run. -/
theorem Unnamed.run {d : Domain} (acts : List DomainAct)
    (h : Reach (DomainsRun.step policy) (fun _ _ => True) (DomainsRun.init policy g grpc http own declared) s)
    (hu : Unnamed d s) (hrun : runActs (DomainsRun.step policy) s acts = some s') : Unnamed d s' := by
  induction acts generalizing s with
  | nil =>
    obtain rfl := Option.some.inj hrun
    exact hu
  | cons a acts ih =>
    unfold runActs at hrun
    split at hrun
    · cases hrun
    · rename_i s₁ hs
      exact ih (.next h trivial hs) (hu.renames ((ordered_of_reach h).step hs).2) hrun

/-- The run lemma: a domain keeps its name, or a delete takes it for good. -/
theorem kept_or_lost (acts : List DomainAct)
    (h : Reach (DomainsRun.step policy) (fun _ _ => True) (DomainsRun.init policy g grpc http own declared) s)
    {id : DomainId} {d : Domain} (hd : s.registry.get? id = some d)
    (hrun : runActs (DomainsRun.step policy) s acts = some s') :
    s'.registry.get? id = some d ∨ d.config.source ≠ .config ∧ LostToDelete policy s acts id d ∧ Unnamed d s' := by
  induction acts generalizing s with
  | nil =>
    obtain rfl := Option.some.inj hrun
    exact .inl hd
  | cons a acts ih =>
    unfold runActs at hrun
    split at hrun
    · cases hrun
    · rename_i s₁ hs
      have hnext := Reach.next h trivial hs
      rcases named_or_unnamed (stamped_of_reach h) ((ordered_of_reach h).step hs).2 hd with hkept | ⟨hnone, hsource, hu⟩
      · exact (ih hnext hkept hrun).imp_right fun hlost => ⟨hlost.1, hlost.2.1.cons hs, hlost.2.2⟩
      · obtain ⟨i, rfl, hi⟩ := removed_of_none hs hd hnone
        exact .inr ⟨hsource, ⟨[], i, acts, s, rfl, rfl, hd, hi⟩, hu.run acts hnext hrun⟩

/-- **A name is not taken over.** However requests interleave, a step never
puts one domain in another's place: a name is free before it is given again.
And through any run a domain keeps its name, or it was not declared, a delete of
that name removed it on the way, and no later run gives it a name again. -/
theorem inserts_never_replace
    (h : Reach (DomainsRun.step policy) (fun _ _ => True) (DomainsRun.init policy g grpc http own declared) s)
    {id : DomainId} {d : Domain} (hd : s.registry.get? id = some d) :
    (∀ a s', s.step policy a = some s' → s'.registry.get? id = some d ∨ s'.registry.get? id = none) ∧
    ∀ acts s', runActs (DomainsRun.step policy) s acts = some s' → s'.registry.get? id = some d ∨
      d.config.source ≠ .config ∧ LostToDelete policy s acts id d ∧
        ∀ acts' s'', runActs (DomainsRun.step policy) s' acts' = some s'' →
          ∀ id' d', s''.registry.get? id' = some d' → d'.inst ≠ d.inst := by
  refine ⟨fun a s' hs => ?_, fun acts s' hrun => ?_⟩
  · exact (named_or_unnamed (stamped_of_reach h) ((ordered_of_reach h).step hs).2 hd).imp_right And.left
  · rcases kept_or_lost acts h hd hrun with hkept | ⟨hsource, hlost, hu⟩
    · exact .inl hkept
    · have h' := reach_guarded (g := fun _ _ => true) (fun _ _ _ => trivial) acts h hrun
      exact .inr ⟨hsource, hlost, fun acts' s'' hrun' => (hu.run acts' h' hrun').gone⟩

/-- **Declared domains stay.** The default domain is the one the daemon began
with in every state, so no subscription's `expect` fails; and a declared domain
keeps its name through any run. -/
theorem declared_domains_stay
    (h : Reach (DomainsRun.step policy) (fun _ _ => True) (DomainsRun.init policy g grpc http own declared) s) :
    s.registry.get? .default = some (DomainsRun.defaultDomain policy g grpc http) ∧
    (∀ t ∈ s.tasks, t.stage ≠ .panicked) ∧
    ∀ id d, s.registry.get? id = some d → d.config.source = .config → ∀ acts s',
      runActs (DomainsRun.step policy) s acts = some s' → s'.registry.get? id = some d := by
  refine ⟨?_, fun t ht => ?_, fun id d hd hsource acts s' hrun => ?_⟩
  · induction h with
    | start => rw [get?_init, if_pos rfl]
    | next hr _ hs ih =>
      refine (named_or_unnamed (stamped_of_reach hr) ((ordered_of_reach hr).step hs).2 ih).resolve_right fun hgone => ?_
      exact hgone.2.1 rfl
  · obtain ⟨i, hi⟩ := List.mem_iff_getElem?.mp ht
    exact ((ordered_of_reach h).tasks i t hi).calm
  · exact (kept_or_lost acts h hd hrun).resolve_right fun hgone => hgone.1 hsource

/-- **The limit holds.** Of the domains with a name, those that were not
declared are never more than `max_domains`, however many creates and loads
race. -/
theorem max_domains_respected
    (h : Reach (DomainsRun.step policy) (fun _ _ => True) (DomainsRun.init policy g grpc http own declared) s) :
    apiCreated s.list ≤ policy.maxDomains := (ordered_of_reach h).within

end Results

/-! ### A run -/

/-- Room for one domain beside the default one. -/
def onePolicy : DomainPolicy := ⟨1, 100, 100⟩

def alone : DomainsRun := .init onePolicy 12201 0 0 {(.udp, 12201), (.tcp, 12201)} []

/-- OTLP over HTTP only, or so it is meant. -/
def oneArmCreate : DomainsCreate := ⟨"t3", some 5000, some 0, some 4318, none, none, false⟩

/-- The boot loop ends; two creates race, and the first has the lock. -/
def racingCreates : List DomainAct := [.run 0, .request (.create oneArmCreate), .request (.create oneArmCreate), .run 1]

/-- The first goes through; gRPC gets a port of the host's choice. -/
def firstCreate : List DomainAct :=
  racingCreates ++ [.run 1, .run 1, .run 1, .host 1 (.ok 5000), .host 1 (.ok 5000), .host 1 (.ok 40000), .host 1 (.ok 4318), .run 1]

def after (acts : List DomainAct) : DomainsRun := (runActs (DomainsRun.step onePolicy) alone acts).getD alone

def t3Domain : Domain := spawnedDomain 1 ⟨"t3"⟩ ⟨some 5000, some (40000, 4318)⟩ 100 100 .ephemeral

theorem reach_racing : Reach (DomainsRun.step onePolicy) (fun _ _ => True) alone (after racingCreates) :=
  reach_guarded (g := fun _ _ => true) (fun _ _ _ => trivial) racingCreates .start rfl

theorem reach_created : Reach (DomainsRun.step onePolicy) (fun _ _ => True) alone (after firstCreate) :=
  reach_guarded (g := fun _ _ => true) (fun _ _ _ => trivial) firstCreate .start rfl

theorem inserts_never_replace_t3 : (∀ a s', (after firstCreate).step onePolicy a = some s' →
      s'.registry.get? ⟨"t3"⟩ = some t3Domain ∨ s'.registry.get? ⟨"t3"⟩ = none) ∧
    ∀ acts s', runActs (DomainsRun.step onePolicy) (after firstCreate) acts = some s' →
      s'.registry.get? ⟨"t3"⟩ = some t3Domain ∨ t3Domain.config.source ≠ .config ∧
        LostToDelete onePolicy (after firstCreate) acts ⟨"t3"⟩ t3Domain ∧
          ∀ acts' s'', runActs (DomainsRun.step onePolicy) s' acts' = some s'' →
            ∀ id' d', s''.registry.get? id' = some d' → d'.inst ≠ t3Domain.inst :=
  inserts_never_replace reach_created rfl

theorem declared_domains_stay_created :
    (after firstCreate).registry.get? .default = some (DomainsRun.defaultDomain onePolicy 12201 0 0) ∧
    (∀ t ∈ (after firstCreate).tasks, t.stage ≠ .panicked) ∧
    ∀ id d, (after firstCreate).registry.get? id = some d → d.config.source = .config → ∀ acts s',
      runActs (DomainsRun.step onePolicy) (after firstCreate) acts = some s' → s'.registry.get? id = some d :=
  declared_domains_stay reach_created

theorem max_domains_respected_created : apiCreated (after firstCreate).list ≤ 1 := max_domains_respected reach_created

end Domains
end Logmon
