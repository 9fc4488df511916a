/-
# Sockets of the domains

Every socket the daemon has bound has one owner: the daemon's own receivers, a
domain that a name or a request still refers to, or a spawn under way; or it
belongs to a listener that was told to stop, and is free once that has
(`sockets_accounted`). So a spawn that fails leaves none behind, and neither
does a deleted domain once the last request that reads it is done. What a spawn
binds is what it was asked for, save that an OTLP arm requested as `0` is
bound where the other arm is not, which is why a create repeated is not always
a no-op (`repeated_create`). A task ends by its own steps, whatever the host
answers, and gives the lock back (`tasks_end`).

Key definitions: `SpawnFits`, `Fitting`, `Owned`, `Stage.remaining`.
Key theorems: `sockets_accounted`, `repeated_create`, `tasks_end`.
-/
import Logmon.Daemon.DomainRuns

namespace Logmon
namespace Domains

open Lib

variable {policy : DomainPolicy} {s s' : DomainsRun} {i : ℕ} {t : Task} {new : Stage} {effect : Effect}

/-! ### What a spawn binds -/

/-- The GELF port that was bound is the one asked for. -/
def GelfFits (requested : Option ℕ) (gelf : Option ℕ) : Prop :=
  requested = some 0 ∧ gelf = none ∨ ∃ p, p ≠ 0 ∧ gelf = some p ∧ (requested = none ∨ requested = some p)

/-- An OTLP port that was bound is the one asked for; `0` asks for any. -/
def PortFits (requested : Option ℕ) (p : ℕ) : Prop := p ≠ 0 ∧ (requested.getD 0 = 0 ∨ p = requested.getD 0)

/-- A spawn stands where what was requested can bring it. -/
def SpawnFits (spec : DomainPortSpec) : Spawn → Prop
  | .allocating _ => spec.gelf = none
  | .binding tries p => p ≠ 0 ∧ (spec.gelf = none ∨ spec.gelf = some p ∧ tries = 1)
  | .udpBound tries p => p ≠ 0 ∧ (spec.gelf = none ∨ spec.gelf = some p ∧ tries = 1)
  | .otlp gelf => GelfFits spec.gelf gelf
  | .grpcBound gelf grpc => GelfFits spec.gelf gelf ∧ spec.otlpDisabled = false ∧ PortFits spec.otlpGrpc grpc
  | .bound r => GelfFits spec.gelf r.gelf ∧ (spec.otlpDisabled = true ∧ r.otlp = none ∨ spec.otlpDisabled = false ∧
      ∃ grpc http, r.otlp = some (grpc, http) ∧ PortFits spec.otlpGrpc grpc ∧ PortFits spec.otlpHttp http)
  | .failed _ => True

theorem spawnFits_start (spec : DomainPortSpec) : SpawnFits spec (.start spec) := by
  unfold Spawn.start
  split
  · rename_i h
    exact .inl ⟨h, rfl⟩
  · rename_i p hne h
    exact ⟨fun hp => hne (hp ▸ rfl), .inr ⟨h, rfl⟩⟩
  · rename_i h
    exact h

theorem spawnFits_refused {spec : DomainPortSpec} {tries p : ℕ} (h : spec.gelf = none ∨ spec.gelf = some p ∧ tries = 1)
    (e : String) : SpawnFits spec (.refused tries e) := by
  unfold Spawn.refused
  split
  · rename_i hlt
    rcases h with h | ⟨-, rfl⟩
    · exact h
    · exact absurd hlt (lt_irrefl 1)
  · exact trivial

/-- What the host gave. -/
theorem granted_bind {bound : Finset Socket} {proto : Proto} {port p : ℕ}
    (h : (Ask.bind proto port).granted bound (.ok p) = true) : p ≠ 0 ∧ (proto, p) ∉ bound ∧ (port = 0 ∨ p = port) := by
  simp only [Ask.granted, Bool.and_eq_true, Bool.or_eq_true, decide_eq_true_eq] at h
  exact ⟨h.1.1, h.1.2, h.2⟩

/-- A move of a spawn: it still stands where it can, and what it binds was free. -/
theorem SpawnMoves.fits {spec : DomainPortSpec} {sp sp' : Spawn} (hm : SpawnMoves s spec sp sp') (h : SpawnFits spec sp) :
    SpawnFits spec sp' ∧ ∀ x ∈ sp'.sockets, x ∈ sp.sockets ∨ x ∉ s.bound := by
  cases hm with
  | skip gelf hd => exact ⟨⟨h, .inl ⟨hd, rfl⟩⟩, fun x hx => .inl hx⟩
  | answer sp ans ha =>
    obtain ⟨ask, hask, hg⟩ := ha.granted
    cases sp with
    | allocating tries =>
      obtain rfl := Option.some.inj hask
      cases ans with
      | error e => exact ⟨trivial, fun x hx => (by cases hx)⟩
      | ok p =>
        simp only [Ask.granted, Bool.and_eq_true, decide_eq_true_eq] at hg
        exact ⟨⟨hg.1, .inl h⟩, fun x hx => (by cases hx)⟩
    | binding tries p =>
      obtain rfl := Option.some.inj hask
      cases ans with
      | error e =>
        refine ⟨spawnFits_refused h.2 e, fun x hx => ?_⟩
        simp only [Spawn.answered, Spawn.refused] at hx
        split at hx <;> cases hx
      | ok q =>
        obtain ⟨-, hfree, hport⟩ := granted_bind hg
        obtain rfl : q = p := hport.resolve_left h.1
        refine ⟨h, fun x hx => .inr ?_⟩
        rw [Finset.mem_singleton.mp hx]
        exact hfree
    | udpBound tries p =>
      obtain rfl := Option.some.inj hask
      cases ans with
      | error e =>
        refine ⟨spawnFits_refused h.2 e, fun x hx => ?_⟩
        simp only [Spawn.answered, Spawn.refused] at hx
        split at hx <;> cases hx
      | ok q =>
        obtain ⟨-, hfree, hport⟩ := granted_bind hg
        obtain rfl : q = p := hport.resolve_left h.1
        refine ⟨.inr ⟨q, h.1, rfl, h.2.imp_right And.left⟩, fun x hx => ?_⟩
        rcases Finset.mem_insert.mp hx with rfl | hx
        · exact .inl (Finset.mem_singleton_self _)
        · rw [Finset.mem_singleton.mp hx]
          exact .inr hfree
    | otlp gelf =>
      simp only [Spawn.ask] at hask
      split at hask
      · cases hask
      · rename_i hd
        obtain rfl := Option.some.inj hask
        cases ans with
        | error e => exact ⟨trivial, fun x hx => (by cases hx)⟩
        | ok q =>
          obtain ⟨hne, hfree, hport⟩ := granted_bind hg
          refine ⟨⟨h, Bool.eq_false_iff.mpr hd, hne, hport⟩, fun x hx => ?_⟩
          rcases Finset.mem_insert.mp hx with rfl | hx
          · exact .inr hfree
          · exact .inl hx
    | grpcBound gelf grpc =>
      obtain rfl := Option.some.inj hask
      cases ans with
      | error e => exact ⟨trivial, fun x hx => (by cases hx)⟩
      | ok q =>
        obtain ⟨hne, hfree, hport⟩ := granted_bind hg
        refine ⟨⟨h.1, .inr ⟨h.2.1, grpc, q, rfl, h.2.2, hne, hport⟩⟩, fun x hx => ?_⟩
        rcases Finset.mem_insert.mp hx with rfl | hx
        · exact .inr hfree
        · exact .inl hx
    | bound r => cases hask
    | failed e => cases hask

/-! ### What a task stands at -/

/-- A domain was spawned from `spec`. -/
structure Spawned (id : DomainId) (spec : DomainPortSpec) (d : Domain) : Prop where
  built : ∃ r inst ls ss source, SpawnFits spec (.bound r) ∧ d = spawnedDomain inst id r ls ss source

/-- A task stands where its job can bring it, and its spawn where its ports
can; a domain it has created is what was asked for. -/
def TaskFits (t : Task) : Prop :=
  match t.job, t.stage with
  | .boot, .boot _ _ => True
  | .boot, .starting cd _ _ _ sp => SpawnFits cd.ports sp
  | .create _ _ _ _, .waiting => True
  | .create _ _ _ _, .checking => True
  | .create _ _ _ _, .found _ => True
  | .create _ _ _ _, .absent => True
  | .create _ _ _ _, .counted _ => True
  | .create _ spec _ _, .spawning sp => SpawnFits spec sp
  | .create id spec _ _, .done (.created d) => Spawned id spec d
  | .load _ _, .waiting => True
  | .load _ _, .checking => True
  | .load _ _, .found _ => True
  | .load _ _, .absent => True
  | .load _ _, .counted _ => True
  | .load _ _, .building => True
  | .delete _, .looking => True
  | .delete _, .holding _ => True
  | .delete _, .removing => True
  | .read _ _, .looking => True
  | .read _ _, .fallback => True
  | .read _ _, .holding _ => True
  | _, .done _ => True
  | _, .panicked => True
  | _, _ => False

theorem taskFits_ensure (id : DomainId) (spec : DomainPortSpec) (ls ss : Option ℕ) (d : Domain) :
    TaskFits ⟨.create id spec ls ss, .done (ensureIdempotent d spec)⟩ := by
  unfold ensureIdempotent
  split
  · exact trivial
  · split <;> exact trivial

theorem Moves.fits (hm : Moves policy s t.job t.stage new effect) (h : TaskFits t) : TaskFits ⟨t.job, new⟩ := by
  obtain ⟨job, stage⟩ := t
  simp only at hm
  cases hm with
  | acquire hjob => cases job <;> trivial
  | found hjob => cases job <;> trivial
  | absent hjob => cases job <;> trivial
  | ensure d => exact taskFits_ensure ..
  | count hjob => cases job <;> trivial
  | full ds e hjob => cases job <;> trivial
  | room => exact spawnFits_start _
  | spawn hsp => exact (hsp.fits h).1
  | create r hd => exact ⟨⟨r, _, _, _, _, h, hd⟩⟩
  | missing e hjob => rcases hjob with rfl | ⟨b, rfl⟩ <;> trivial
  | hold hjob => rcases hjob with ⟨rfl, rfl⟩ | ⟨b, rfl⟩ <;> trivial
  | start => exact spawnFits_start _
  | starting hsp => exact (hsp.fits h).1
  | _ => trivial

def Fitting (s : DomainsRun) : Prop := ∀ t ∈ s.tasks, TaskFits t

theorem accept_fits (r : Request) : TaskFits r.accept := by
  unfold Request.accept
  split
  · split <;> exact trivial
  · split
    · exact trivial
    · split <;> exact trivial
  · split <;> exact trivial
  · exact trivial

theorem Fitting.step (h : Fitting s) {a : DomainAct} (hs : s.step policy a = some s') : Fitting s' := by
  rcases moves_of_step hs with ⟨r, -, rfl⟩ | ⟨x, -, rfl⟩ | ⟨i, t, new, effect, hi, hm, rfl⟩
  · intro t ht
    rcases List.mem_append.mp ht with ht | ht
    · exact h t ht
    · rw [List.mem_singleton.mp ht]
      exact accept_fits r
  · exact h
  · intro u hu
    rw [perform_tasks] at hu
    rcases List.mem_or_eq_of_mem_set hu with hu | rfl
    · exact h u hu
    · exact hm.fits (h t (List.mem_of_getElem? hi))

/-! ### Owners -/

theorem mem_alive {d : Domain} : d ∈ s.alive ↔ d ∈ s.list ∨ ∃ t ∈ s.tasks, d ∈ t.stage.arcs := by
  unfold DomainsRun.alive
  rw [List.mem_append, List.mem_flatMap]

/-- A task refers to what it did, or to a domain with a name. -/
theorem Moves.arcs (hm : Moves policy s t.job t.stage new effect) {d : Domain} (hd : d ∈ new.arcs) :
    d ∈ t.stage.arcs ∨ d ∈ s.list := by
  obtain ⟨job, stage⟩ := t
  simp only at hm
  cases hm with
  | found _ hget =>
    rw [List.mem_singleton.mp hd]
    exact .inr (mem_list.mpr ⟨_, hget⟩)
  | count => exact .inr hd
  | hold _ _ hget =>
    rw [List.mem_singleton.mp hd]
    exact .inr (mem_list.mpr ⟨_, hget⟩)
  | _ => cases hd

/-- What a task binds was free; what it publishes is what it had bound. -/
theorem Moves.sockets (hm : Moves policy s t.job t.stage new effect) (h : TaskFits t) :
    (∀ x ∈ new.sockets, x ∈ t.stage.sockets ∨ x ∉ s.bound) ∧
    ∀ d, effect = .publish d → d.sockets = t.stage.sockets ∧ new.sockets = ∅ := by
  have hstart : ∀ spec, (Spawn.start spec).sockets = ∅ := fun spec => by
    unfold Spawn.start
    split <;> rfl
  obtain ⟨job, stage⟩ := t
  simp only at hm
  cases hm with
  | room =>
    refine ⟨fun x hx => ?_, fun _ hd => (by cases hd)⟩
    rw [show Stage.sockets (.spawning _) = Spawn.sockets _ from rfl, hstart] at hx
    cases hx
  | spawn hsp => exact ⟨(hsp.fits h).2, fun _ hd => (by cases hd)⟩
  | create r hd =>
    subst hd
    refine ⟨fun x hx => (by cases hx), fun d hd => ?_⟩
    obtain rfl := Effect.publish.inj hd
    exact ⟨rfl, rfl⟩
  | load hd =>
    subst hd
    refine ⟨fun x hx => (by cases hx), fun d hd => ?_⟩
    obtain rfl := Effect.publish.inj hd
    exact ⟨rfl, rfl⟩
  | start =>
    refine ⟨fun x hx => ?_, fun _ hd => (by cases hd)⟩
    rw [show Stage.sockets (.starting _ _ _ _ _) = Spawn.sockets _ from rfl, hstart] at hx
    cases hx
  | starting hsp => exact ⟨(hsp.fits h).2, fun _ hd => (by cases hd)⟩
  | started r hd =>
    subst hd
    refine ⟨fun x hx => (by cases hx), fun d hd => ?_⟩
    obtain rfl := Effect.publish.inj hd
    exact ⟨rfl, rfl⟩
  | _ => exact ⟨fun x hx => (by cases hx), fun _ hd => (by cases hd)⟩

/-- Every bound socket has one owner, or is closing. -/
structure Owned (own : Finset Socket) (s : DomainsRun) : Prop where
  bound : ∀ x, x ∈ s.bound ↔
    x ∈ own ∨ (∃ d ∈ s.alive, x ∈ d.sockets) ∨ (∃ t ∈ s.tasks, x ∈ t.stage.sockets) ∨ x ∈ s.closing
  spawns : ∀ t ∈ s.tasks, ∀ x ∈ t.stage.sockets, x ∉ own ∧ ∀ d ∈ s.alive, x ∉ d.sockets
  domains : ∀ d ∈ s.alive, ∀ x ∈ d.sockets, x ∉ own ∧ ∀ d' ∈ s.alive, x ∈ d'.sockets → d' = d
  closing : ∀ x ∈ s.closing, x ∉ own ∧ (∀ d ∈ s.alive, x ∉ d.sockets) ∧ ∀ t ∈ s.tasks, x ∉ t.stage.sockets

variable {own : Finset Socket}

theorem sockets_of_idle {st : Stage} (hl : st.locked = false) (hs : st.seen? = none) : st.sockets = ∅ := by
  cases st <;> first | rfl | (cases hl; done) | cases hs

/-- What is bound after a move: what was, and what the task binds. -/
theorem mem_bound_perform (x : Socket) :
    x ∈ (s.perform i t new effect).bound ↔ x ∈ s.bound ∨ x ∈ new.sockets ∨ x ∈ effect.sockets := by
  have hmem : x ∈ s.bound ∪ (new.sockets ∪ effect.sockets) ↔ x ∈ s.bound ∨ x ∈ new.sockets ∨ x ∈ effect.sockets := by
    rw [Finset.mem_union, Finset.mem_union]
  cases effect <;> exact hmem

/-- What is closing after a move: what was, what the task dropped, and the
sockets of what is referred to no more. -/
theorem mem_closing_perform (x : Socket) : x ∈ (s.perform i t new effect).closing ↔
    x ∈ s.closing ∨ (x ∈ t.stage.sockets ∧ x ∉ new.sockets ∧ x ∉ effect.sockets) ∨
      x ∈ (s.perform i t new effect).bound ∧ ∃ d ∈ s.alive, d ∉ (s.perform i t new effect).alive ∧ x ∈ d.sockets := by
  have hmem : x ∈ (s.closing ∪ (t.stage.sockets \ (new.sockets ∪ effect.sockets))) ∪
      ((s.perform i t new effect).bound.filter fun x =>
        ∃ d ∈ s.alive, d ∉ (s.perform i t new effect).alive ∧ x ∈ d.sockets) ↔
      x ∈ s.closing ∨ (x ∈ t.stage.sockets ∧ x ∉ new.sockets ∧ x ∉ effect.sockets) ∨
        x ∈ (s.perform i t new effect).bound ∧ ∃ d ∈ s.alive, d ∉ (s.perform i t new effect).alive ∧ x ∈ d.sockets := by
    rw [Finset.mem_union, Finset.mem_union, Finset.mem_sdiff, Finset.mem_union, Finset.mem_filter, not_or, or_assoc]
  cases effect <;> exact hmem

/-- What is alive after a move was, or is what it published. -/
theorem alive_perform (hi : s.tasks[i]? = some t) (hm : Moves policy s t.job t.stage new effect) {d : Domain}
    (hd : d ∈ (s.perform i t new effect).alive) : d ∈ s.alive ∨ effect = .publish d := by
  rcases mem_alive.mp hd with hd | ⟨u, hu, hd⟩
  · cases effect with
    | publish d' =>
      obtain ⟨id, hid⟩ := mem_list.mp hd
      have hget : (s.registry.insert d'.config.name d').get? id = some d := hid
      rw [FMap.get?_insert] at hget
      split at hget
      · exact .inr (congrArg Effect.publish (Option.some.inj hget))
      · exact .inl (mem_alive.mpr (.inl (mem_list.mpr ⟨id, hget⟩)))
    | remove id' =>
      obtain ⟨id, hid⟩ := mem_list.mp hd
      have hget : (s.registry.erase id').get? id = some d := hid
      rw [FMap.get?_erase] at hget
      split at hget
      · cases hget
      · exact .inl (mem_alive.mpr (.inl (mem_list.mpr ⟨id, hget⟩)))
    | _ => exact .inl (mem_alive.mpr (.inl hd))
  · rw [perform_tasks] at hu
    rcases List.mem_or_eq_of_mem_set hu with hu | rfl
    · exact .inl (mem_alive.mpr (.inr ⟨u, hu, hd⟩))
    · refine .inl (mem_alive.mpr ?_)
      rcases hm.arcs hd with hd | hd
      · exact .inr ⟨t, List.mem_of_getElem? hi, hd⟩
      · exact .inl hd

theorem published_alive {d : Domain} (he : effect = .publish d) : d ∈ (s.perform i t new effect).alive := by
  subst he
  refine mem_alive.mpr (.inl (mem_list.mpr ⟨d.config.name, ?_⟩))
  change (s.registry.insert d.config.name d).get? d.config.name = some d
  rw [FMap.get?_insert, if_pos rfl]

/-- Beside a task with sockets, or one that just had some, no other has any. -/
theorem Ordered.one_spawn (h : Ordered policy s) (hi : s.tasks[i]? = some t) {x : Socket} (hx : x ∈ t.stage.sockets)
    {j : ℕ} {u : Task} (hj : s.tasks[j]? = some u) (hne : j ≠ i) : u.stage.sockets = ∅ := by
  have hex : t.stage.locked = true ∨ t.stage.seen? ≠ none := by
    by_contra hno
    rw [not_or, not_not, Bool.not_eq_true] at hno
    rw [sockets_of_idle hno.1 hno.2] at hx
    cases hx
  obtain ⟨hl, hs, -⟩ := h.alone hi hex hj hne
  exact sockets_of_idle hl hs

/-- The tasks after a move: the one that moved, and the others. -/
theorem task_perform {u : Task} (hu : u ∈ (s.perform i t new effect).tasks) :
    u = ⟨t.job, new⟩ ∨ ∃ j, s.tasks[j]? = some u ∧ j ≠ i := by
  obtain ⟨j, hj⟩ := List.mem_iff_getElem?.mp hu
  revert hj
  exact forall_tasks_set (P := fun _ u => u = ⟨t.job, new⟩ ∨ ∃ j, s.tasks[j]? = some u ∧ j ≠ i) perform_tasks (.inl rfl)
    (fun j u hj hne => .inr ⟨j, hj, hne⟩) j u

theorem moved_mem (hi : s.tasks[i]? = some t) : ⟨t.job, new⟩ ∈ (s.perform i t new effect).tasks := by
  rw [perform_tasks]
  exact List.mem_iff_getElem?.mpr ⟨i, by rw [List.getElem?_set_self (List.getElem?_eq_some_iff.mp hi).1]⟩

theorem other_mem {j : ℕ} {u : Task} (hj : s.tasks[j]? = some u) (hne : j ≠ i) :
    u ∈ (s.perform i t new effect).tasks := by
  rw [perform_tasks]
  exact List.mem_iff_getElem?.mpr ⟨j, by rw [List.getElem?_set_ne (fun he => hne he.symm), hj]⟩

theorem mem_effect {x : Socket} (hx : x ∈ effect.sockets) : ∃ d, effect = .publish d ∧ x ∈ d.sockets := by
  cases effect with
  | publish d => exact ⟨d, rfl, hx⟩
  | _ => cases hx

/-- A move keeps every owner. -/
theorem Owned.moves (h : Owned own s) (hord : Ordered policy s) (hfit : Fitting s) (hi : s.tasks[i]? = some t)
    (hm : Moves policy s t.job t.stage new effect) : Owned own (s.perform i t new effect) := by
  have ht := List.mem_of_getElem? hi
  obtain ⟨hnew, hpub⟩ := hm.sockets (hfit t ht)
  have halive : ∀ d ∈ (s.perform i t new effect).alive, d ∈ s.alive ∨ effect = .publish d := fun d hd => alive_perform hi hm hd
  -- a socket of another task is no socket of this one, before or after
  have hother : ∀ (j : ℕ) (u : Task), s.tasks[j]? = some u → j ≠ i → ∀ x ∈ u.stage.sockets, x ∉ t.stage.sockets :=
    fun j u hj hne x hx hxt => by
      rw [hord.one_spawn hi hxt hj hne] at hx
      cases hx
  have hspawned : ∀ x ∈ t.stage.sockets, x ∈ s.bound := fun x hx => (h.bound x).mpr (.inr (.inr (.inl ⟨t, ht, hx⟩)))
  have hclosing : ∀ x ∈ s.closing, x ∈ s.bound := fun x hx => (h.bound x).mpr (.inr (.inr (.inr hx)))
  have hlive : ∀ d ∈ s.alive, ∀ x ∈ d.sockets, x ∈ s.bound := fun d hd x hx => (h.bound x).mpr (.inr (.inl ⟨d, hd, hx⟩))
  refine ⟨fun x => ⟨fun hx => ?_, fun hx => ?_⟩, fun u hu x hx => ?_, fun d hd x hx => ?_, fun x hx => ?_⟩
  · rcases (mem_bound_perform x).mp hx with hold | hxn | hxe
    · rcases (h.bound x).mp hold with hown | ⟨d, hd, hxd⟩ | ⟨u, hu, hxu⟩ | hcl
      · exact .inl hown
      · by_cases hd' : d ∈ (s.perform i t new effect).alive
        · exact .inr (.inl ⟨d, hd', hxd⟩)
        · exact .inr (.inr (.inr ((mem_closing_perform x).mpr (.inr (.inr ⟨hx, d, hd, hd', hxd⟩)))))
      · obtain ⟨j, hj⟩ := List.mem_iff_getElem?.mp hu
        by_cases hji : j = i
        · subst hji
          obtain rfl := Option.some.inj (hi.symm.trans hj)
          by_cases hxn : x ∈ new.sockets
          · exact .inr (.inr (.inl ⟨_, moved_mem hi, hxn⟩))
          by_cases hxe : x ∈ effect.sockets
          · obtain ⟨d, he, hxd⟩ := mem_effect hxe
            exact .inr (.inl ⟨d, published_alive he, hxd⟩)
          · exact .inr (.inr (.inr ((mem_closing_perform x).mpr (.inr (.inl ⟨hxu, hxn, hxe⟩)))))
        · exact .inr (.inr (.inl ⟨u, other_mem hj hji, hxu⟩))
      · exact .inr (.inr (.inr ((mem_closing_perform x).mpr (.inl hcl))))
    · exact .inr (.inr (.inl ⟨_, moved_mem hi, hxn⟩))
    · obtain ⟨d, he, hxd⟩ := mem_effect hxe
      exact .inr (.inl ⟨d, published_alive he, hxd⟩)
  · rw [mem_bound_perform]
    rcases hx with hown | ⟨d, hd, hxd⟩ | ⟨u, hu, hxu⟩ | hcl
    · exact .inl ((h.bound x).mpr (.inl hown))
    · rcases halive d hd with hold | he
      · exact .inl (hlive d hold x hxd)
      · exact .inr (.inr (by rw [he]; exact hxd))
    · rcases task_perform hu with rfl | ⟨j, hj, -⟩
      · exact .inr (.inl hxu)
      · exact .inl ((h.bound x).mpr (.inr (.inr (.inl ⟨u, List.mem_of_getElem? hj, hxu⟩))))
    · rcases (mem_closing_perform x).mp hcl with hold | ⟨hxt, -⟩ | ⟨hb, -⟩
      · exact .inl (hclosing x hold)
      · exact .inl (hspawned x hxt)
      · exact (mem_bound_perform x).mp hb
  · rcases task_perform hu with rfl | ⟨j, hj, hne⟩
    · have hnone : ∀ d, effect ≠ .publish d := fun d he => by
        rw [(hpub d he).2] at hx
        cases hx
      rcases hnew x hx with hxt | hfree
      · refine ⟨(h.spawns t ht x hxt).1, fun d hd => ?_⟩
        exact (h.spawns t ht x hxt).2 d ((halive d hd).resolve_right (hnone d))
      · exact ⟨fun hown => hfree ((h.bound x).mpr (.inl hown)),
          fun d hd hxd => hfree (hlive d ((halive d hd).resolve_right (hnone d)) x hxd)⟩
    · have huj := List.mem_of_getElem? hj
      refine ⟨(h.spawns u huj x hx).1, fun d hd hxd => ?_⟩
      rcases halive d hd with hold | he
      · exact (h.spawns u huj x hx).2 d hold hxd
      · rw [(hpub d he).1] at hxd
        exact hother j u hj hne x hx hxd
  · rcases halive d hd with hold | he
    · refine ⟨(h.domains d hold x hx).1, fun d' hd' hx' => ?_⟩
      rcases halive d' hd' with hold' | he'
      · exact (h.domains d hold x hx).2 d' hold' hx'
      · rw [(hpub d' he').1] at hx'
        exact absurd hx ((h.spawns t ht x hx').2 d hold)
    · have hxt : x ∈ t.stage.sockets := (hpub d he).1 ▸ hx
      refine ⟨(h.spawns t ht x hxt).1, fun d' hd' hx' => ?_⟩
      rcases halive d' hd' with hold' | he'
      · exact absurd hx' ((h.spawns t ht x hxt).2 d' hold')
      · exact Effect.publish.inj (he'.symm.trans he)
  · -- what closes is not bound again by the move that drops it
    have hpublished : ∀ d, effect = .publish d → ∀ x ∈ d.sockets, x ∈ t.stage.sockets := fun d he x hx => (hpub d he).1 ▸ hx
    rcases (mem_closing_perform x).mp hx with hold | ⟨hxt, hxn, hxe⟩ | ⟨-, d, hd, hdead, hxd⟩
    · obtain ⟨hown, hdom, htask⟩ := h.closing x hold
      refine ⟨hown, fun d hd hxd => ?_, fun u hu hxu => ?_⟩
      · rcases halive d hd with hd | he
        · exact hdom d hd hxd
        · exact htask t ht (hpublished d he x hxd)
      · rcases task_perform hu with rfl | ⟨j, hj, -⟩
        · rcases hnew x hxu with hxt | hfree
          · exact htask t ht hxt
          · exact hfree (hclosing x hold)
        · exact htask u (List.mem_of_getElem? hj) hxu
    · obtain ⟨hown, hdom⟩ := h.spawns t ht x hxt
      refine ⟨hown, fun d hd hxd => ?_, fun u hu hxu => ?_⟩
      · rcases halive d hd with hd | he
        · exact hdom d hd hxd
        · exact hxe (by rw [he]; exact hxd)
      · rcases task_perform hu with rfl | ⟨j, hj, hne⟩
        · exact hxn hxu
        · exact hother j u hj hne x hxu hxt
    · obtain ⟨hown, hone⟩ := h.domains d hd x hxd
      refine ⟨hown, fun d' hd' hxd' => ?_, fun u hu hxu => ?_⟩
      · rcases halive d' hd' with hold | he
        · exact hdead (hone d' hold hxd' ▸ hd')
        · exact (h.spawns t ht x (hpublished d' he x hxd')).2 d hd hxd
      · rcases task_perform hu with rfl | ⟨j, hj, -⟩
        · rcases hnew x hxu with hxt | hfree
          · exact (h.spawns t ht x hxt).2 d hd hxd
          · exact hfree (hlive d hd x hxd)
        · exact (h.spawns u (List.mem_of_getElem? hj) x hxu).2 d hd hxd

/-- A listener that stops frees a socket that no one has. -/
theorem Owned.freed (h : Owned own s) {x : Socket} (hx : x ∈ s.closing) : Owned own (s.freed x) := by
  obtain ⟨hown, hdom, htask⟩ := h.closing x hx
  refine ⟨fun y => ?_, h.spawns, h.domains, fun y hy => h.closing y (Finset.mem_of_mem_erase hy)⟩
  change y ∈ s.bound.erase x ↔ y ∈ own ∨ (∃ d ∈ s.alive, y ∈ d.sockets) ∨ (∃ t ∈ s.tasks, y ∈ t.stage.sockets) ∨
    y ∈ s.closing.erase x
  rw [Finset.mem_erase, Finset.mem_erase, h.bound y]
  refine ⟨fun hy => ?_, fun hy => ?_⟩
  · rcases hy with ⟨hne, hy | hy | hy | hy⟩
    · exact .inl hy
    · exact .inr (.inl hy)
    · exact .inr (.inr (.inl hy))
    · exact .inr (.inr (.inr ⟨hne, hy⟩))
  · rcases hy with hy | ⟨d, hd, hy⟩ | ⟨t, ht, hy⟩ | ⟨hne, hy⟩
    · exact ⟨fun he => hown (he ▸ hy), .inl hy⟩
    · exact ⟨fun he => hdom d hd (he ▸ hy), .inr (.inl ⟨d, hd, hy⟩)⟩
    · exact ⟨fun he => htask t ht (he ▸ hy), .inr (.inr (.inl ⟨t, ht, hy⟩))⟩
    · exact ⟨hne, .inr (.inr (.inr hy))⟩

/-! ### Runs -/

/-- The sockets a domain says it listens on. -/
def DomainConfig.listens (c : DomainConfig) : Finset Socket :=
  (if c.gelfPort = 0 then ∅ else {(.udp, c.gelfPort), (.tcp, c.gelfPort)}) ∪
    ((if c.otlpGrpcPort = 0 then ∅ else {(.tcp, c.otlpGrpcPort)}) ∪ if c.otlpHttpPort = 0 then ∅ else {(.tcp, c.otlpHttpPort)})

/-- A domain with receivers says what they bound. -/
def Described (s : DomainsRun) : Prop := ∀ d ∈ s.alive, d.receivers ≠ none → d.config.listens = d.sockets

theorem listens_spawned {spec : DomainPortSpec} {r : DomainReceivers} (h : SpawnFits spec (.bound r)) (inst : ℕ) (id : DomainId)
    (ls ss : ℕ) (source : DomainSource) :
    (spawnedDomain inst id r ls ss source).config.listens = (spawnedDomain inst id r ls ss source).sockets := by
  obtain ⟨hgelf, hotlp⟩ := h
  have hg : (if r.gelf.getD 0 = 0 then ∅ else {(Proto.udp, r.gelf.getD 0), (Proto.tcp, r.gelf.getD 0)}) = gelfSockets r.gelf := by
    rcases hgelf with ⟨-, he⟩ | ⟨p, hp, he, -⟩
    · rw [he]
      rfl
    · rw [he]
      exact if_neg hp
  rcases hotlp with ⟨-, he⟩ | ⟨-, q, w, he, hq, hw⟩
  · simp only [DomainConfig.listens, spawnedDomain, Domain.sockets, DomainReceivers.sockets, he, hg]
    simp
  · simp only [DomainConfig.listens, spawnedDomain, Domain.sockets, DomainReceivers.sockets, he, hg, Option.map_some,
      Option.getD_some, if_neg hq.1, if_neg hw.1]
    ext x
    simp only [Finset.mem_union, Finset.mem_insert, Finset.mem_singleton]
    tauto

theorem Described.moves (h : Described s) (hfit : Fitting s) (hi : s.tasks[i]? = some t)
    (hm : Moves policy s t.job t.stage new effect) : Described (s.perform i t new effect) := by
  intro d hd hr
  rcases alive_perform hi hm hd with hold | he
  · exact h d hold hr
  · have ht := hfit t (List.mem_of_getElem? hi)
    obtain ⟨job, stage⟩ := t
    simp only at hm
    cases hm with
    | create r hd' =>
      obtain rfl := Effect.publish.inj he
      subst hd'
      exact listens_spawned ht ..
    | load hd' =>
      obtain rfl := Effect.publish.inj he
      subst hd'
      exact absurd rfl hr
    | started r hd' =>
      obtain rfl := Effect.publish.inj he
      subst hd'
      exact listens_spawned ht ..
    | _ => cases he

theorem accept_bare (r : Request) : r.accept.stage.arcs = [] ∧ r.accept.stage.sockets = ∅ := by
  unfold Request.accept
  split
  · split <;> exact ⟨rfl, rfl⟩
  · split
    · exact ⟨rfl, rfl⟩
    · split <;> exact ⟨rfl, rfl⟩
  · split <;> exact ⟨rfl, rfl⟩
  · exact ⟨rfl, rfl⟩

/-- A task that refers to nothing adds nothing alive. -/
theorem alive_concat {x : Task} (hx : x.stage.arcs = []) : ({ s with tasks := s.tasks ++ [x] } : DomainsRun).alive = s.alive := by
  simp [DomainsRun.alive, DomainsRun.list, hx]

section Results

variable {g grpc http : ℕ} {declared : List ConfigDomain}

/-- What every state keeps of the sockets. -/
structure Kept (own : Finset Socket) (s : DomainsRun) : Prop where
  fitting : Fitting s
  owned : Owned own s
  described : Described s

theorem kept_init : Kept own (DomainsRun.init policy g grpc http own declared) := by
  have halive : (DomainsRun.init policy g grpc http own declared).alive = [DomainsRun.defaultDomain policy g grpc http] := rfl
  have hnone : ∀ d ∈ (DomainsRun.init policy g grpc http own declared).alive, d.receivers = none := fun d hd => by
    rw [halive] at hd
    rw [List.mem_singleton.mp hd]
    rfl
  have hbare : ∀ d ∈ (DomainsRun.init policy g grpc http own declared).alive, ∀ x, x ∉ d.sockets := fun d hd x hx => by
    unfold Domain.sockets at hx
    rw [hnone d hd] at hx
    cases hx
  have htask : ∀ t ∈ (DomainsRun.init policy g grpc http own declared).tasks, t = ⟨.boot, .boot declared []⟩ := fun t ht =>
    List.mem_singleton.mp ht
  refine ⟨fun t ht => ?_, ⟨fun x => ⟨.inl, fun hx => ?_⟩, fun t ht x hx => ?_, fun d hd x hx => absurd hx (hbare d hd x),
    fun x hx => (by cases hx)⟩, fun d hd hr => absurd (hnone d hd) hr⟩
  · rw [htask t ht]
    exact trivial
  · rcases hx with hx | ⟨d, hd, hx⟩ | ⟨t, ht, hx⟩ | hx
    · exact hx
    · exact absurd hx (hbare d hd x)
    · rw [htask t ht] at hx
      cases hx
    · cases hx
  · rw [htask t ht] at hx
    cases hx

theorem Kept.step (h : Kept own s) (hord : Ordered policy s) {a : DomainAct} (hs : s.step policy a = some s') : Kept own s' := by
  suffices hboth : Owned own s' ∧ Described s' from ⟨h.fitting.step hs, hboth.1, hboth.2⟩
  rcases moves_of_step hs with ⟨r, -, rfl⟩ | ⟨x, hx, rfl⟩ | ⟨i, t, new, effect, hi, hm, rfl⟩
  · obtain ⟨harcs, hsockets⟩ := accept_bare r
    have halive := alive_concat (s := s) harcs
    have htasks : ∀ x, (∃ t ∈ s.tasks ++ [r.accept], x ∈ t.stage.sockets) ↔ ∃ t ∈ s.tasks, x ∈ t.stage.sockets := fun x => by
      simp [hsockets]
    refine ⟨⟨fun x => ?_, fun t ht x hx => ?_, ?_, fun x hx => ?_⟩, ?_⟩
    · rw [halive]
      exact (h.owned.bound x).trans (or_congr_right (or_congr_right (or_congr_left (htasks x).symm)))
    · rw [halive]
      rcases List.mem_append.mp ht with ht | ht
      · exact h.owned.spawns t ht x hx
      · rw [List.mem_singleton.mp ht, hsockets] at hx
        cases hx
    · rw [halive]
      exact h.owned.domains
    · rw [halive]
      obtain ⟨hown, hdom, htask⟩ := h.owned.closing x hx
      exact ⟨hown, hdom, fun t ht hxt => ((htasks x).mp ⟨t, ht, hxt⟩).elim fun u hu => htask u hu.1 hu.2⟩
    · unfold Described
      rw [halive]
      exact h.described
  · exact ⟨h.owned.freed hx, h.described⟩
  · exact ⟨h.owned.moves hord h.fitting hi hm, h.described.moves h.fitting hi hm⟩

theorem kept_of_reach
    (h : Reach (DomainsRun.step policy) (fun _ _ => True) (DomainsRun.init policy g grpc http own declared) s) : Kept own s := by
  induction h with
  | start => exact kept_init
  | next hr _ hs ih => exact ih.step (ordered_of_reach hr) hs

/-- The listeners that were told to stop can all stop, in any order. -/
theorem stopped_run (policy : DomainPolicy) : ∀ {xs : List Socket} {s : DomainsRun}, xs.Nodup → (∀ x, x ∈ xs ↔ x ∈ s.closing) →
    ∃ s', runActs (DomainsRun.step policy) s (xs.map .stopped) = some s' ∧ s'.registry = s.registry ∧ s'.tasks = s.tasks ∧
      s'.closing = ∅
  | [], s, _, h => ⟨s, rfl, rfl, rfl, Finset.eq_empty_of_forall_notMem fun x hx => List.not_mem_nil ((h x).mpr hx)⟩
  | x :: xs, s, hnd, h => by
    obtain ⟨hx, hnd⟩ := List.nodup_cons.mp hnd
    have hstep : s.step policy (.stopped x) = some (s.freed x) := if_pos ((h x).mp List.mem_cons_self)
    have hrest : ∀ y, y ∈ xs ↔ y ∈ (s.freed x).closing := fun y => by
      change y ∈ xs ↔ y ∈ s.closing.erase x
      rw [Finset.mem_erase, ← h y, List.mem_cons]
      exact ⟨fun hy => ⟨fun he => hx (he ▸ hy), .inr hy⟩, fun hy => hy.2.resolve_left hy.1⟩
    obtain ⟨s', hrun, hreg, htasks, hclosing⟩ := stopped_run policy hnd hrest
    refine ⟨s', ?_, hreg, htasks, hclosing⟩
    simp only [List.map_cons, runActs, hstep, hrun]

/-- With no request in flight, what is bound is the daemon's own, what the
domains with a name have, and what is closing. -/
theorem Owned.bound_of_done (h : Owned own s) (hdone : ∀ t ∈ s.tasks, ∃ r, t.stage = .done r) :
    s.bound = own ∪ s.list.toFinset.biUnion Domain.sockets ∪ s.closing := by
  ext x
  rw [h.bound, Finset.mem_union, Finset.mem_union, Finset.mem_biUnion, or_assoc]
  refine or_congr_right ⟨fun hx => ?_, fun hx => ?_⟩
  · rcases hx with ⟨d, hd, hx⟩ | ⟨t, ht, hx⟩ | hx
    · rcases mem_alive.mp hd with hd | ⟨t, ht, hd⟩
      · exact .inl ⟨d, List.mem_toFinset.mpr hd, hx⟩
      · obtain ⟨r, hr⟩ := hdone t ht
        rw [hr] at hd
        cases hd
    · obtain ⟨r, hr⟩ := hdone t ht
      rw [hr] at hx
      cases hx
    · exact .inr hx
  · rcases hx with ⟨d, hd, hx⟩ | hx
    · exact .inl ⟨d, mem_alive.mpr (.inl (List.mem_toFinset.mp hd)), hx⟩
    · exact .inr (.inr hx)

/-- **Every socket is accounted for.** What the daemon has bound is its own
receivers', or a domain's that a name or a request refers to, or a spawn's
under way, or belongs to a listener that was told to stop, which no one has any
more; two domains share none; a domain with receivers listens where it says.
When no request is in flight, what is bound beside what is closing is what the
domains with a name have; and the listeners that close can all stop, which
leaves just that. -/
theorem sockets_accounted
    (h : Reach (DomainsRun.step policy) (fun _ _ => True) (DomainsRun.init policy g grpc http own declared) s) :
    (∀ x, x ∈ s.bound ↔
      x ∈ own ∨ (∃ d ∈ s.alive, x ∈ d.sockets) ∨ (∃ t ∈ s.tasks, x ∈ t.stage.sockets) ∨ x ∈ s.closing) ∧
    (∀ x ∈ s.closing, x ∉ own ∧ (∀ d ∈ s.alive, x ∉ d.sockets) ∧ ∀ t ∈ s.tasks, x ∉ t.stage.sockets) ∧
    (∀ d ∈ s.alive, ∀ d' ∈ s.alive, d ≠ d' → Disjoint d.sockets d'.sockets) ∧
    (∀ d ∈ s.alive, d.receivers ≠ none → d.config.listens = d.sockets) ∧
    ((∀ t ∈ s.tasks, ∃ r, t.stage = .done r) →
      s.bound = own ∪ s.list.toFinset.biUnion Domain.sockets ∪ s.closing ∧
      ∀ xs : List Socket, xs.Nodup → (∀ x, x ∈ xs ↔ x ∈ s.closing) →
        ∃ s', runActs (DomainsRun.step policy) s (xs.map .stopped) = some s' ∧ s'.registry = s.registry ∧
          s'.tasks = s.tasks ∧ s'.bound = own ∪ s.list.toFinset.biUnion Domain.sockets) := by
  have hk := kept_of_reach h
  refine ⟨hk.owned.bound, hk.owned.closing, fun d hd d' hd' hne => ?_, hk.described,
    fun hdone => ⟨hk.owned.bound_of_done hdone, fun xs hnd hxs => ?_⟩⟩
  · refine Finset.disjoint_left.mpr fun x hx hx' => hne ?_
    exact ((hk.owned.domains d hd x hx).2 d' hd' hx').symm
  · obtain ⟨s', hrun, hreg, htasks, hclosing⟩ := stopped_run policy hnd hxs
    have hreach := reach_guarded (g := fun _ _ => true) (fun _ _ _ => trivial) _ h hrun
    have hbound := (kept_of_reach hreach).owned.bound_of_done (htasks ▸ hdone)
    have hlist : s'.list = s.list := by
      unfold DomainsRun.list
      rw [hreg]
    rw [hclosing, hlist, Finset.union_empty] at hbound
    exact ⟨s', hrun, hreg, htasks, hbound⟩

/-! ### A create repeated -/

/-- One OTLP arm is requested as `0`, the other is not: it is bound all the same. -/
def DomainPortSpec.oneArm (spec : DomainPortSpec) : Prop :=
  spec.otlpDisabled = false ∧ (spec.otlpGrpc = some 0 ∨ spec.otlpHttp = some 0)

theorem portMatches_gelf {requested gelf : Option ℕ} (h : GelfFits requested gelf) : portMatches (gelf.getD 0) requested = true := by
  rcases h with ⟨rfl, rfl⟩ | ⟨p, -, rfl, rfl | rfl⟩
  · rfl
  · rfl
  · simp [portMatches]

theorem portMatches_otlp {requested : Option ℕ} {p : ℕ} (h : PortFits requested p) :
    portMatches p requested = true ↔ requested ≠ some 0 := by
  obtain ⟨hp, hfits⟩ := h
  cases requested with
  | none => simp [portMatches]
  | some q =>
    simp only [Option.getD_some] at hfits
    simp only [portMatches, Option.all_some, decide_eq_true_eq, ne_eq, Option.some.injEq]
    omega

/-- What a spawned domain answers to the request that it was spawned from. -/
theorem ensure_spawned {id : DomainId} {spec : DomainPortSpec} {d : Domain} (h : Spawned id spec d) :
    (¬ spec.oneArm → ensureIdempotent d spec = .ensured d) ∧
    (spec.oneArm → ensureIdempotent d spec = .error ("domain \"" ++ id.name ++ "\" already exists with different ports")) := by
  obtain ⟨r, inst, ls, ss, source, ⟨hgelf, hotlp⟩, rfl⟩ := h.built
  have hg : portMatches (spawnedDomain inst id r ls ss source).config.gelfPort spec.gelf = true := portMatches_gelf hgelf
  have hports : (portMatches (spawnedDomain inst id r ls ss source).config.otlpGrpcPort spec.otlpGrpc &&
      portMatches (spawnedDomain inst id r ls ss source).config.otlpHttpPort spec.otlpHttp) = true ↔ ¬ spec.oneArm := by
    rcases hotlp with ⟨hd, he⟩ | ⟨hd, q, w, he, hq, hw⟩
    · have hoff : spec.otlpGrpc = some 0 ∧ spec.otlpHttp = some 0 := by simpa [DomainPortSpec.otlpDisabled] using hd
      simp [spawnedDomain, he, hoff.1, hoff.2, portMatches, DomainPortSpec.oneArm, hd]
    · simp only [spawnedDomain, he, Option.map_some, Option.getD_some, DomainPortSpec.oneArm, hd, true_and, not_or,
        Bool.and_eq_true, portMatches_otlp hq, portMatches_otlp hw, ne_eq]
  unfold ensureIdempotent
  simp only [show (spawnedDomain inst id r ls ss source).postmortem = none from rfl, hg, Bool.true_and]
  refine ⟨fun hno => if_pos (hports.mpr hno), fun harm => if_neg fun hboth => hports.mp hboth harm⟩

theorem booted_of_seen (h : ∀ t ∈ s.tasks, t.stage.seen? = none) : s.booted = true := by
  refine List.all_eq_true.mpr fun t ht => ?_
  have hs := h t ht
  obtain ⟨job, stage⟩ := t
  cases stage <;> first | rfl | cases hs

theorem Ordered.booted (h : Ordered policy s) (hi : s.tasks[i]? = some t) (ht : t.stage.seen? = none) : s.booted = true := by
  refine booted_of_seen fun u hu => ?_
  by_contra hs
  obtain ⟨seen, hs⟩ := Option.ne_none_iff_exists'.mp hs
  obtain ⟨j, hj⟩ := List.mem_iff_getElem?.mp hu
  have hlen := ((h.tasks j u hj).boots seen hs).1
  have hli := (List.getElem?_eq_some_iff.mp hi).1
  have hlj := (List.getElem?_eq_some_iff.mp hj).1
  obtain rfl : i = j := by omega
  rw [hi] at hj
  rw [← Option.some.inj hj, ht] at hs
  cases hs

/-- A move that neither binds nor drops anything leaves the sockets. -/
theorem perform_still (hold : t.stage.sockets = ∅) (hnew : new.sockets = ∅) (heffect : effect.sockets = ∅)
    (hlive : ∀ d ∈ s.alive, d ∈ (s.perform i t new effect).alive) :
    (s.perform i t new effect).bound = s.bound ∧ (s.perform i t new effect).closing = s.closing := by
  refine ⟨Finset.ext fun x => ?_, Finset.ext fun x => ?_⟩
  · rw [mem_bound_perform, hnew, heffect]
    simp
  · rw [mem_closing_perform, hold]
    refine ⟨fun hx => ?_, .inl⟩
    rcases hx with hx | ⟨hx, -⟩ | ⟨-, d, hd, hdead, -⟩
    · exact hx
    · cases hx
    · exact absurd (hlive d hd) hdead

/-- The steps of a create that finds its name taken. -/
theorem ensure_run (policy : DomainPolicy) {id : DomainId} {spec : DomainPortSpec} {ls ss : Option ℕ} {d : Domain} {req : DomainsCreate}
    (hb : s.booted = true) (hlock : s.lock = none) (hd : s.registry.get? id = some d)
    (hreq : (Request.create req).accept = ⟨.create id spec ls ss, .waiting⟩) :
    ∃ s', runActs (DomainsRun.step policy) s
        [.request (.create req), .run s.tasks.length, .run s.tasks.length, .run s.tasks.length] = some s' ∧
      s'.registry = s.registry ∧ s'.bound = s.bound ∧ s'.closing = s.closing ∧
      s'.tasks = s.tasks ++ [⟨.create id spec ls ss, .done (ensureIdempotent d spec)⟩] := by
  have hset : ∀ x y : Task, (s.tasks ++ [x]).set s.tasks.length y = s.tasks ++ [y] := fun x y => by simp
  let job : Job := .create id spec ls ss
  let s₁ : DomainsRun := { s with tasks := s.tasks ++ [⟨job, .waiting⟩] }
  let s₂ := s₁.perform s.tasks.length ⟨job, .waiting⟩ .checking .acquire
  let s₃ := s₂.perform s.tasks.length ⟨job, .checking⟩ (.found d) .quiet
  let s₄ := s₃.perform s.tasks.length ⟨job, .found d⟩ (.done (ensureIdempotent d spec)) .release
  have hget : ∀ x : Task, (s.tasks ++ [x])[s.tasks.length]? = some x := fun x => List.getElem?_concat_length
  have ht₂ : s₂.tasks = s.tasks ++ [⟨job, .checking⟩] := perform_tasks.trans (hset _ _)
  have ht₃ : s₃.tasks = s.tasks ++ [⟨job, .found d⟩] := by
    rw [perform_tasks, ht₂]
    exact hset _ _
  have ht₄ : s₄.tasks = s.tasks ++ [⟨job, .done (ensureIdempotent d spec)⟩] := by
    rw [perform_tasks, ht₃]
    exact hset _ _
  have h₁ : s.step policy (.request (.create req)) = some s₁ := by
    simp only [DomainsRun.step, hb, hreq, if_true]
    rfl
  have h₂ : s₁.step policy (.run s.tasks.length) = some s₂ := by
    have hi : s₁.tasks[s.tasks.length]? = some ⟨job, .waiting⟩ := hget _
    have hl : s₁.lock = none := hlock
    simp only [DomainsRun.step, hi, Task.advance, job, handleDomainsCreate, hl, if_true]
    rfl
  have h₃ : s₂.step policy (.run s.tasks.length) = some s₃ := by
    have hi : s₂.tasks[s.tasks.length]? = some ⟨job, .checking⟩ := by
      rw [ht₂]
      exact hget _
    have hr : s₂.registry.get? id = some d := hd
    simp only [DomainsRun.step, hi, Task.advance, job, handleDomainsCreate, hr]
    rfl
  have h₄ : s₃.step policy (.run s.tasks.length) = some s₄ := by
    have hi : s₃.tasks[s.tasks.length]? = some ⟨job, .found d⟩ := by
      rw [ht₃]
      exact hget _
    simp only [DomainsRun.step, hi, Task.advance, job, handleDomainsCreate]
    rfl
  have hlist : ∀ (s' : DomainsRun) {x : Task}, s'.registry = s.registry → s'.tasks = s.tasks ++ [x] →
      ∀ d', d' ∈ s'.alive ↔ d' ∈ s.alive ∨ d' ∈ x.stage.arcs := fun s' x hr ht d' => by
    simp [DomainsRun.alive, DomainsRun.list, hr, ht, or_assoc]
  have hd' : d ∈ s.alive := mem_alive.mpr (.inl (mem_list.mpr ⟨id, hd⟩))
  have hstill₂ : s₂.bound = s₁.bound ∧ s₂.closing = s₁.closing := perform_still rfl rfl rfl fun d' hm =>
    (hlist s₂ rfl ht₂ d').mpr (.inl (((hlist s₁ rfl rfl d').mp hm).resolve_right List.not_mem_nil))
  have hstill₃ : s₃.bound = s₂.bound ∧ s₃.closing = s₂.closing := perform_still rfl rfl rfl fun d' hm =>
    (hlist s₃ rfl ht₃ d').mpr (.inl (((hlist s₂ rfl ht₂ d').mp hm).resolve_right List.not_mem_nil))
  have hstill₄ : s₄.bound = s₃.bound ∧ s₄.closing = s₃.closing := perform_still rfl rfl rfl fun d' hm => by
    refine (hlist s₄ rfl ht₄ d').mpr (.inl ?_)
    rcases (hlist s₃ rfl ht₃ d').mp hm with hm | hm
    · exact hm
    · rw [List.mem_singleton.mp hm]
      exact hd'
  refine ⟨s₄, ?_, rfl, hstill₄.1.trans (hstill₃.1.trans hstill₂.1), hstill₄.2.trans (hstill₃.2.trans hstill₂.2), ht₄⟩
  simp only [runActs, h₁, h₂, h₃, h₄]

/-- **A create repeated.** While the domain that a create has made has its
name, the same request, sent while the create lock is free and let run while
nothing else moves, changes neither the names nor the sockets. It answers with
that domain, unless it is one that disables one OTLP arm only: then it is refused
for different ports. -/
theorem repeated_create
    (h : Reach (DomainsRun.step policy) (fun _ _ => True) (DomainsRun.init policy g grpc http own declared) s)
    {id : DomainId} {spec : DomainPortSpec} {ls ss : Option ℕ} {d : Domain}
    (ht : ⟨.create id spec ls ss, .done (.created d)⟩ ∈ s.tasks) (hd : s.registry.get? id = some d) (hlock : s.lock = none)
    {req : DomainsCreate} (hreq : (Request.create req).accept = ⟨.create id spec ls ss, .waiting⟩) :
    ∃ s' r, runActs (DomainsRun.step policy) s
        [.request (.create req), .run s.tasks.length, .run s.tasks.length, .run s.tasks.length] = some s' ∧
      s'.tasks = s.tasks ++ [⟨.create id spec ls ss, .done r⟩] ∧ s'.registry = s.registry ∧ s'.bound = s.bound ∧
      s'.closing = s.closing ∧ (¬ spec.oneArm → r = .ensured d) ∧
      (spec.oneArm → r = .error ("domain \"" ++ id.name ++ "\" already exists with different ports")) := by
  have hord := ordered_of_reach h
  obtain ⟨i, hi⟩ := List.mem_iff_getElem?.mp ht
  obtain ⟨s', hrun, hreg, hbound, hclosing, htasks⟩ := ensure_run policy (hord.booted hi rfl) hlock hd hreq
  have hspawned : Spawned id spec d := (kept_of_reach h).fitting _ ht
  exact ⟨s', ensureIdempotent d spec, hrun, htasks, hreg, hbound, hclosing, ensure_spawned hspawned⟩

/-! ### Tasks end -/

/-- The steps a spawn has left, at most. -/
def Spawn.remaining : Spawn → ℕ
  | .allocating tries => 3 * tries + 5
  | .binding tries _ => 3 * tries + 4
  | .udpBound tries _ => 3 * tries + 3
  | .otlp _ => 2
  | .grpcBound _ _ => 1
  | .bound _ => 0
  | .failed _ => 0

/-- The steps of its own that a task has left, at most. -/
def Stage.remaining : Stage → ℕ
  | .waiting => 25
  | .checking => 24
  | .absent => 23
  | .counted _ => 22
  | .spawning sp => sp.remaining + 1
  | .found _ => 1
  | .building => 1
  | .looking => 4
  | .fallback => 3
  | .holding _ => 2
  | .removing => 1
  | .boot todo _ => 22 * todo.length + 1
  | .starting _ _ todo _ sp => 22 * todo.length + 2 + sp.remaining
  | .done _ => 0
  | .panicked => 0

theorem remaining_start (spec : DomainPortSpec) : (Spawn.start spec).remaining ≤ 20 := by
  unfold Spawn.start
  split <;> simp [Spawn.remaining]

theorem remaining_refused {tries : ℕ} (e : String) : (Spawn.refused tries e).remaining < 3 * tries + 3 := by
  unfold Spawn.refused
  split
  · simp only [Spawn.remaining]
    omega
  · simp [Spawn.remaining]

theorem SpawnMoves.remaining {spec : DomainPortSpec} {sp sp' : Spawn} (hm : SpawnMoves s spec sp sp') :
    sp'.remaining < sp.remaining := by
  cases hm with
  | skip gelf hd => exact Nat.two_pos
  | answer sp ans ha =>
    obtain ⟨ask, hask, -⟩ := ha.granted
    cases sp with
    | allocating tries => cases ans <;> simp [Spawn.answered, Spawn.remaining]
    | binding tries p =>
      cases ans with
      | error e => exact (remaining_refused e).trans (Nat.lt_succ_self _)
      | ok q => exact Nat.lt_succ_self _
    | udpBound tries p =>
      cases ans with
      | error e => exact remaining_refused e
      | ok q => simp [Spawn.answered, Spawn.remaining]
    | otlp gelf => cases ans <;> simp [Spawn.answered, Spawn.remaining]
    | grpcBound gelf q => cases ans <;> simp [Spawn.answered, Spawn.remaining]
    | bound r => cases hask
    | failed e => cases hask

theorem Moves.remaining (hm : Moves policy s t.job t.stage new effect) : new.remaining < t.stage.remaining := by
  obtain ⟨job, stage⟩ := t
  simp only at hm ⊢
  cases hm with
  | room => exact Nat.lt_succ_of_le (Nat.succ_le_succ (remaining_start _))
  | spawn hsp => exact Nat.succ_lt_succ hsp.remaining
  | @hold _ _ _ old _ _ hold => rcases hold with rfl | rfl <;> simp [Stage.remaining]
  | start =>
    simp only [Stage.remaining, List.length_cons]
    exact lt_of_le_of_lt (Nat.add_le_add_left (remaining_start _) _) (by omega)
  | starting hsp => exact Nat.add_lt_add_left hsp.remaining _
  | _ => simp [Stage.remaining, Spawn.remaining]

/-- The task whose own step this is. -/
def DomainAct.own? : DomainAct → Option ℕ
  | .request _ => none
  | .run i => some i
  | .host i _ => some i
  | .stopped _ => none

/-- A step is a task's own, or leaves the task as it is. -/
theorem own_step {a : DomainAct} (hs : s.step policy a = some s') (hi : s.tasks[i]? = some t) :
    ∃ u, s'.tasks[i]? = some u ∧ u.job = t.job ∧
      u.stage.remaining + (if a.own? = some i then 1 else 0) ≤ t.stage.remaining := by
  have hmove : ∀ {k : ℕ} {v : Task} {new : Stage} {effect : Effect}, s.tasks[k]? = some v →
      Moves policy s v.job v.stage new effect → a.own? = some k → s' = s.perform k v new effect →
      ∃ u, s'.tasks[i]? = some u ∧ u.job = t.job ∧
        u.stage.remaining + (if a.own? = some i then 1 else 0) ≤ t.stage.remaining := by
    intro k v new effect hk hm ha he
    subst he
    rw [perform_tasks, ha]
    by_cases hki : k = i
    · subst hki
      obtain rfl := Option.some.inj (hi.symm.trans hk)
      refine ⟨⟨t.job, new⟩, List.getElem?_set_self (List.getElem?_eq_some_iff.mp hi).1, rfl, ?_⟩
      rw [if_pos rfl]
      exact hm.remaining
    · refine ⟨t, (List.getElem?_set_ne hki).trans hi, rfl, ?_⟩
      rw [if_neg fun he => hki (Option.some.inj he)]
      exact le_refl _
  cases a with
  | request r =>
    simp only [DomainsRun.step] at hs
    split at hs
    · obtain rfl := Option.some.inj hs
      exact ⟨t, (List.getElem?_append_left (List.getElem?_eq_some_iff.mp hi).1).trans hi, rfl, le_refl _⟩
    · cases hs
  | stopped x =>
    simp only [DomainsRun.step] at hs
    split at hs
    · obtain rfl := Option.some.inj hs
      exact ⟨t, hi, rfl, le_refl _⟩
    · cases hs
  | run k =>
    simp only [DomainsRun.step] at hs
    split at hs
    · cases hs
    · rename_i v hk
      obtain ⟨⟨new, effect⟩, hadv, rfl⟩ := Option.map_eq_some_iff.mp hs
      exact hmove hk (moves_of_advance hadv) rfl rfl
  | host k ans =>
    simp only [DomainsRun.step] at hs
    split at hs
    · cases hs
    · rename_i v hk
      obtain ⟨new, hans, rfl⟩ := Option.map_eq_some_iff.mp hs
      exact hmove hk (moves_of_answered hans) rfl rfl

/-- A spawn that is not at its end moves on, whether the host grants or not. -/
theorem spawn_can_step (spec : DomainPortSpec) (sp : Spawn) : (∃ r, sp = .bound r) ∨ (∃ e, sp = .failed e) ∨
    (∃ sp', sp.skip spec = some sp') ∨ ∃ ask, sp.ask spec = some ask := by
  cases sp with
  | otlp gelf => cases hd : spec.otlpDisabled <;> simp [Spawn.skip, Spawn.ask, hd]
  | _ => simp [Spawn.ask]

/-- A task that is not done and does not wait for the lock can take a step. -/
theorem can_step (policy : DomainPolicy) (hi : s.tasks[i]? = some t) (hfit : TaskFits t) (hdone : t.stage.remaining ≠ 0)
    (hwait : t.stage = .waiting → s.lock = none) : ∃ a s', a.own? = some i ∧ s.step policy a = some s' := by
  suffices hsome : (t.advance policy s).isSome = true ∨ ∃ new, t.answered s (.error "") = some new by
    rcases hsome with ha | ⟨new, hn⟩
    · obtain ⟨⟨new, effect⟩, hx⟩ := Option.isSome_iff_exists.mp ha
      refine ⟨.run i, s.perform i t new effect, rfl, ?_⟩
      simp only [DomainsRun.step, hi, hx, Option.map_some]
    · refine ⟨.host i (.error ""), s.perform i t new .quiet, rfl, ?_⟩
      simp only [DomainsRun.step, hi, hn, Option.map_some]
  obtain ⟨job, stage⟩ := t
  cases job with
  | boot =>
    cases stage with
    | boot todo seen =>
      refine .inl ?_
      cases todo with
      | nil => rfl
      | cons cd todo =>
        simp only [Task.advance, bootDomains]
        split
        · rfl
        · split_ifs <;> rfl
    | starting cd id todo seen sp =>
      rcases spawn_can_step cd.ports sp with ⟨r, rfl⟩ | ⟨e, rfl⟩ | ⟨sp', hsp⟩ | ⟨ask, hask⟩
      · exact .inl rfl
      · exact .inl rfl
      · cases sp with
        | otlp gelf => simp [Task.advance, bootDomains, hsp]
        | _ => cases hsp
      · exact .inr ⟨.starting cd id todo seen (sp.answered (.error "")), by simp only [Task.answered, hask, Ask.granted, if_true]⟩
    | done r => exact absurd rfl hdone
    | panicked => exact absurd rfl hdone
    | _ => exact hfit.elim
  | create id spec ls ss =>
    cases stage with
    | waiting =>
      have hl := hwait rfl
      simp [Task.advance, handleDomainsCreate, hl]
    | checking =>
      refine .inl ?_
      simp only [Task.advance, handleDomainsCreate]
      split <;> rfl
    | found d => exact .inl rfl
    | absent => exact .inl rfl
    | counted ds =>
      refine .inl ?_
      simp only [Task.advance, handleDomainsCreate]
      split
      · rfl
      · split <;> rfl
    | spawning sp =>
      rcases spawn_can_step spec sp with ⟨r, rfl⟩ | ⟨e, rfl⟩ | ⟨sp', hsp⟩ | ⟨ask, hask⟩
      · exact .inl rfl
      · exact .inl rfl
      · cases sp with
        | otlp gelf => simp [Task.advance, handleDomainsCreate, hsp]
        | _ => cases hsp
      · exact .inr ⟨.spawning (sp.answered (.error "")), by simp only [Task.answered, hask, Ask.granted, if_true]⟩
    | done r => exact absurd rfl hdone
    | panicked => exact absurd rfl hdone
    | _ => exact hfit.elim
  | load id c =>
    cases stage with
    | waiting =>
      have hl := hwait rfl
      simp [Task.advance, handleCasesLoad, hl]
    | checking =>
      refine .inl ?_
      simp only [Task.advance, handleCasesLoad]
      split <;> rfl
    | counted ds =>
      refine .inl ?_
      simp only [Task.advance, handleCasesLoad]
      split <;> rfl
    | found d => exact .inl rfl
    | absent => exact .inl rfl
    | building => exact .inl rfl
    | done r => exact absurd rfl hdone
    | panicked => exact absurd rfl hdone
    | _ => exact hfit.elim
  | delete id =>
    cases stage with
    | looking =>
      refine .inl ?_
      simp only [Task.advance, handleDomainsDelete]
      split <;> rfl
    | holding d =>
      refine .inl ?_
      simp only [Task.advance, handleDomainsDelete]
      split <;> rfl
    | removing => exact .inl rfl
    | done r => exact absurd rfl hdone
    | panicked => exact absurd rfl hdone
    | _ => exact hfit.elim
  | read id b =>
    cases stage with
    | looking =>
      refine .inl ?_
      simp only [Task.advance, resolveDomain]
      split
      · rfl
      · split <;> rfl
    | fallback =>
      refine .inl ?_
      simp only [Task.advance, resolveDomain]
      split <;> rfl
    | holding d => exact .inl rfl
    | done r => exact absurd rfl hdone
    | panicked => exact absurd rfl hdone
    | _ => exact hfit.elim
  | refused =>
    cases stage with
    | done r => exact absurd rfl hdone
    | panicked => exact absurd rfl hdone
    | _ => exact hfit.elim

theorem remaining_accept (r : Request) : r.accept.stage.remaining ≤ 25 := by
  unfold Request.accept
  split
  · split <;> simp [Stage.remaining]
  · split
    · simp [Stage.remaining]
    · split <;> simp [Stage.remaining]
  · split <;> simp [Stage.remaining]
  · simp [Stage.remaining]

/-- No request has more than 25 steps of its own. -/
theorem remaining_le
    (h : Reach (DomainsRun.step policy) (fun _ _ => True) (DomainsRun.init policy g grpc http own declared) s) :
    ∀ t ∈ s.tasks, t.job ≠ .boot → t.stage.remaining ≤ 25 := by
  induction h with
  | start =>
    intro t ht hjob
    rw [List.mem_singleton.mp ht] at hjob
    exact absurd rfl hjob
  | next hr _ hs ih =>
    rcases moves_of_step hs with ⟨r, -, rfl⟩ | ⟨x, -, rfl⟩ | ⟨i, t, new, effect, hi, hm, rfl⟩
    · intro t ht hjob
      rcases List.mem_append.mp ht with ht | ht
      · exact ih t ht hjob
      · rw [List.mem_singleton.mp ht]
        exact remaining_accept r
    · exact ih
    · intro u hu hjob
      rw [perform_tasks] at hu
      rcases List.mem_or_eq_of_mem_set hu with hu | rfl
      · exact ih u hu hjob
      · exact hm.remaining.le.trans (ih t (List.mem_of_getElem? hi) hjob)

theorem done_of_remaining {st : Stage} (h : st.remaining = 0) (hp : st ≠ .panicked) : ∃ r, st = .done r := by
  cases st with
  | done r => exact ⟨r, rfl⟩
  | panicked => exact absurd rfl hp
  | boot todo seen => simp [Stage.remaining] at h
  | _ => simp [Stage.remaining] at h

/-- The steps of its own that a task takes in a run are among those it has left. -/
theorem own_steps_le (acts : List DomainAct) (hrun : runActs (DomainsRun.step policy) s acts = some s')
    (hi : s.tasks[i]? = some t) : acts.countP (fun a => decide (a.own? = some i)) ≤ t.stage.remaining := by
  induction acts generalizing s t with
  | nil => exact Nat.zero_le _
  | cons a acts ih =>
    unfold runActs at hrun
    split at hrun
    · cases hrun
    · rename_i s₁ hs
      obtain ⟨u, hu, -, hle⟩ := own_step hs hi
      have hrest := ih hrun hu
      rw [List.countP_cons]
      simp only [decide_eq_true_eq]
      omega

/-- **Tasks end, and the lock comes back.** In any run a task takes no more
steps of its own than it has left, 25 at most for a request, whatever the host
answers; and until it is done it can take one, or the holder of the lock that
it waits for can. -/
theorem tasks_end
    (h : Reach (DomainsRun.step policy) (fun _ _ => True) (DomainsRun.init policy g grpc http own declared) s)
    (hi : s.tasks[i]? = some t) :
    (∀ acts s', runActs (DomainsRun.step policy) s acts = some s' →
      acts.countP (fun a => decide (a.own? = some i)) ≤ t.stage.remaining) ∧
    (t.job ≠ .boot → t.stage.remaining ≤ 25) ∧
    ((∃ r, t.stage = .done r) ∨
      ∃ j a s', (j = i ∨ t.stage = .waiting ∧ s.lock = some j) ∧ a.own? = some j ∧ s.step policy a = some s') := by
  have hord := ordered_of_reach h
  have hk := kept_of_reach h
  have ht := List.mem_of_getElem? hi
  refine ⟨fun acts s' hrun => own_steps_le acts hrun hi, remaining_le h t ht, ?_⟩
  by_cases hzero : t.stage.remaining = 0
  · exact .inl (done_of_remaining hzero (hord.tasks i t hi).calm)
  · refine .inr ?_
    by_cases hblocked : t.stage = .waiting ∧ s.lock ≠ none
    · obtain ⟨j, hj⟩ := Option.ne_none_iff_exists'.mp hblocked.2
      have hu := List.getElem?_eq_getElem (hord.holder j hj)
      have hlocked := (hord.tasks j _ hu).locked.mpr hj
      obtain ⟨a, s', ha, hs⟩ := can_step policy hu (hk.fitting _ (List.mem_of_getElem? hu))
        (fun hz => by
          obtain ⟨r, hr⟩ := done_of_remaining hz (hord.tasks j _ hu).calm
          rw [hr] at hlocked
          cases hlocked)
        (fun hw => by
          rw [hw] at hlocked
          cases hlocked)
      exact ⟨j, a, s', .inr ⟨hblocked.1, hj⟩, ha, hs⟩
    · obtain ⟨a, s', ha, hs⟩ := can_step policy hi (hk.fitting t ht) hzero fun hw => by
        by_contra hl
        exact hblocked ⟨hw, hl⟩
      exact ⟨i, a, s', .inl rfl, ha, hs⟩

end Results

/-- The second create finds `t3` and is answered; a request reads `t3` while
another deletes it, and the last of them to let go of it is done. -/
def deletedWhileRead : List DomainAct :=
  firstCreate ++ [.run 2, .run 2, .run 2, .request (.read ⟨"t3"⟩ false), .run 3, .request (.delete "t3"), .run 4, .run 4,
    .run 4, .run 3]

theorem reach_deleted : Reach (DomainsRun.step onePolicy) (fun _ _ => True) alone (after deletedWhileRead) :=
  reach_guarded (g := fun _ _ => true) (fun _ _ _ => trivial) deletedWhileRead .start rfl

theorem done_deleted : ∀ t ∈ (after deletedWhileRead).tasks, ∃ r, t.stage = .done r := by
  intro t ht
  have hstages : (after deletedWhileRead).tasks.all fun t => t.stage.remaining = 0 := rfl
  have hcalm := (ordered_of_reach reach_deleted).tasks
  obtain ⟨i, hi⟩ := List.mem_iff_getElem?.mp ht
  exact done_of_remaining (of_decide_eq_true (List.all_eq_true.mp hstages t ht)) (hcalm i t hi).calm

/-- Its four sockets are closing, and free once their listeners have stopped. -/
theorem sockets_accounted_deleted :
    ∃ s', runActs (DomainsRun.step onePolicy) (after deletedWhileRead)
        ([(.tcp, 4318), (.udp, 5000), (.tcp, 40000), (.tcp, 5000)].map .stopped) = some s' ∧
      s'.registry = (after deletedWhileRead).registry ∧ s'.tasks = (after deletedWhileRead).tasks ∧
      s'.bound = alone.bound ∪ (after deletedWhileRead).list.toFinset.biUnion Domain.sockets :=
  ((sockets_accounted reach_deleted).2.2.2.2 done_deleted).2 [(.tcp, 4318), (.udp, 5000), (.tcp, 40000), (.tcp, 5000)]
    (by decide) (by
      have hclosing : (after deletedWhileRead).closing = {(.tcp, 4318), (.udp, 5000), (.tcp, 40000), (.tcp, 5000)} := by decide
      intro x
      rw [hclosing]
      simp)

theorem repeated_create_t3 : ∃ s' r, runActs (DomainsRun.step onePolicy) (after firstCreate)
      [.request (.create oneArmCreate), .run 3, .run 3, .run 3] = some s' ∧
    s'.tasks = (after firstCreate).tasks ++ [⟨.create ⟨"t3"⟩ ⟨some 5000, some 0, some 4318⟩ none none, .done r⟩] ∧
    s'.registry = (after firstCreate).registry ∧ s'.bound = (after firstCreate).bound ∧
    s'.closing = (after firstCreate).closing ∧
    (¬ DomainPortSpec.oneArm ⟨some 5000, some 0, some 4318⟩ → r = .ensured t3Domain) ∧
    (DomainPortSpec.oneArm ⟨some 5000, some 0, some 4318⟩ → r = .error "domain \"t3\" already exists with different ports") :=
  repeated_create reach_created (.tail _ (.head _)) rfl rfl rfl

theorem tasks_end_racing :
    (∀ acts s', runActs (DomainsRun.step onePolicy) (after racingCreates) acts = some s' →
      acts.countP (fun a => decide (a.own? = some 2)) ≤ 25) ∧
    (Job.create ⟨"t3"⟩ ⟨some 5000, some 0, some 4318⟩ none none ≠ .boot → 25 ≤ 25) ∧
    ((∃ r, Stage.waiting = .done r) ∨ ∃ j a s', (j = 2 ∨ Stage.waiting = .waiting ∧ (after racingCreates).lock = some j) ∧
      a.own? = some j ∧ (after racingCreates).step onePolicy a = some s') :=
  tasks_end (t := ⟨.create ⟨"t3"⟩ ⟨some 5000, some 0, some 4318⟩ none none, .waiting⟩) reach_racing rfl

end Domains
end Logmon
