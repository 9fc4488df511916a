/-
# The collector directory agrees with the registry

Each path of the directory, under any interleaving of calls, is a `Place` of
`Logmon.Lib.Stamped`: its holders are the collectors armed under that owner
and name, its deletes to come are those that removals, moves and detaches
left, and a write is owed by a mover or by a call that has prepared a file and
found no number for it yet. Every step of the system is an event at one place
or at none, so `Settles` holds at every path; once all calls have returned,
a path has a file exactly when a collector is armed there, and the file was
prepared from such a collector.

Key definitions: `Task.deletes`, `Task.rewrites`, `Sys.place`, `Sys.Filed`.
Key theorems: `Sys.Filed.step`, `collector_files_settle`.
-/
import Logmon.Collector.Keys
import Logmon.Collector.Ledger
import Logmon.Lib.Stamped

namespace Logmon

open Lib CollectorRegistry

variable {W Span P : Type}

/-! ### What is to come -/

/-- The deletes a task will carry out: owner, name and reading. -/
def Task.deletes : Task W → List (SessionName × String × ℕ)
  | .delete owner name since => [(owner, name, since)]
  | .rewrite old _ name since => [(old, name, since)]
  | .lifecycle _ p => p.moved.map (fun m => (m.1, m.2.2.1, m.2.2.2)) ++ p.unlink
  | _ => []

/-- The collectors a task will write from what they are then. -/
def Task.rewrites : Task W → List (SessionName × String)
  | .rewrite _ new name _ => [(new, name)]
  | .lifecycle _ p => p.moved.map fun m => (m.2.1, m.2.2.1)
  | _ => []

/-- Some of these tasks will delete the file at `(o, n)`, with reading `x`. -/
def Deletes (ts : List (Task W)) (o : SessionName) (n : String) (x : ℕ) : Prop := ∃ t ∈ ts, (o, n, x) ∈ t.deletes

def Rewrites (ts : List (Task W)) (o : SessionName) (n : String) : Prop := ∃ t ∈ ts, (o, n) ∈ t.rewrites

theorem deletes_append {ts us : List (Task W)} {o : SessionName} {n : String} {x : ℕ} :
    Deletes (ts ++ us) o n x ↔ Deletes ts o n x ∨ Deletes us o n x := by
  simp only [Deletes, List.mem_append, or_and_right, exists_or]

theorem deletes_cons {t : Task W} {us : List (Task W)} {o : SessionName} {n : String} {x : ℕ} :
    Deletes (t :: us) o n x ↔ (o, n, x) ∈ t.deletes ∨ Deletes us o n x := by
  simp [Deletes]

@[simp] theorem not_deletes_nil {o : SessionName} {n : String} {x : ℕ} : ¬ Deletes ([] : List (Task W)) o n x := by
  simp [Deletes]

theorem rewrites_append {ts us : List (Task W)} {o : SessionName} {n : String} :
    Rewrites (ts ++ us) o n ↔ Rewrites ts o n ∨ Rewrites us o n := by
  simp only [Rewrites, List.mem_append, or_and_right, exists_or]

theorem rewrites_cons {t : Task W} {us : List (Task W)} {o : SessionName} {n : String} :
    Rewrites (t :: us) o n ↔ (o, n) ∈ t.rewrites ∨ Rewrites us o n := by
  simp [Rewrites]

/-- The file is the one of `(o, n)`. -/
def PersistedCollector.IsOf (file : PersistedCollector W) (o : SessionName) (n : String) : Prop :=
  file.owner = o.text ∧ file.name = n

namespace Call

/-- The file a call has prepared and not taken a number for. -/
def unstamped? (c : Call W P) : Option (ℕ × PersistedCollector W) :=
  match c.hold, c.tasks with
  | .stamped _ _, _ => none
  | _, .write id file :: _ => some (id, file)
  | _, _ => none

/-- The file a call has taken a number for and not saved. -/
def stamped? (c : Call W P) : Option (ℕ × PersistedCollector W × ℕ) :=
  match c.hold, c.tasks with
  | .stamped _ st, .write id file :: _ => some (id, file, st)
  | _, _ => none

/-- The call will write the file at `(o, n)`. -/
def Owes (c : Call W P) (r : CollectorRegistry W) (o : SessionName) (n : String) : Prop :=
  Rewrites c.tasks o n ∨ ∃ id file, c.unstamped? = some (id, file) ∧ file.IsOf o n ∧ (id, o, n) ∈ r.keys

def Stamped (c : Call W P) (o : SessionName) (n : String) (id st : ℕ) : Prop :=
  ∃ file, c.stamped? = some (id, file, st) ∧ file.IsOf o n

theorem Owes.mono {c : Call W P} {r r' : CollectorRegistry W} {o : SessionName} {n : String}
    (hk : ∀ id, (id, o, n) ∈ r.keys → (id, o, n) ∈ r'.keys) (h : c.Owes r o n) : c.Owes r' o n := by
  refine h.imp_right fun ⟨id, file, hu, hf, hk'⟩ => ?_
  exact ⟨id, file, hu, hf, hk id hk'⟩

theorem Stamped.shape {c : Call W P} {o : SessionName} {n : String} {id st : ℕ} (h : c.Stamped o n id st) :
    ∃ l file rest, c = ⟨.write id file :: rest, .stamped l st⟩ ∧ file.IsOf o n := by
  obtain ⟨tasks, hold⟩ := c
  obtain ⟨file, hs, hf⟩ := h
  cases hold with
  | stamped l st' =>
    cases tasks with
    | nil => simp [Call.stamped?] at hs
    | cons t rest =>
      cases t with
      | write id' file' =>
        simp only [Call.stamped?, Option.some.injEq, Prod.mk.injEq] at hs
        obtain ⟨rfl, rfl, rfl⟩ := hs
        exact ⟨l, file', rest, rfl, hf⟩
      | _ => simp [Call.stamped?] at hs
  | _ => simp [Call.stamped?] at hs

end Call

namespace Sys

/-! ### The sections as events -/

/-- What a section does at `(o, n)`: nothing, or every holder leaves and a
delete is left behind, or a holder arrives and a write is left behind. -/
inductive Moves (s : Sys W P) (t : Task W) (res : CollectorRegistry W × List (Task W)) (o : SessionName)
    (n : String) : Prop
  | keep (hlive : ∀ id, (id, o, n) ∈ res.1.keys ↔ (id, o, n) ∈ s.reg.keys)
      (hdel : ∀ x, Deletes res.2 o n x ↔ (o, n, x) ∈ t.deletes)
      (howed : (o, n) ∈ t.rewrites → (⟨res.2, .none⟩ : Call W P).Owes res.1 o n ∨ ∀ id, (id, o, n) ∉ res.1.keys)
  | leave (hlive : ∀ id, (id, o, n) ∉ res.1.keys) (hmono : ∀ x, (o, n, x) ∈ t.deletes → Deletes res.2 o n x)
      (hnew : ∀ x, Deletes res.2 o n x → (o, n, x) ∈ t.deletes ∨ x = s.seq)
      (hbehind : ∀ id, (id, o, n) ∈ s.reg.keys → Deletes res.2 o n s.seq)
  | arrive (hlive : ∀ id, (id, o, n) ∈ s.reg.keys → (id, o, n) ∈ res.1.keys)
      (howed : (⟨res.2, .none⟩ : Call W P).Owes res.1 o n) (hdel : ∀ x, Deletes res.2 o n x ↔ (o, n, x) ∈ t.deletes)

variable {path : String → String → P} {env : CollectorEnv W Span} {s s' : Sys W P} {t : Task W} {o : SessionName} {n : String}

/-- A section that arms and disarms nobody and leaves no file work. -/
theorem Moves.same {res : CollectorRegistry W × List (Task W)} (hk : res.1.keys = s.reg.keys)
    (hdel : ∀ x, Deletes res.2 o n x ↔ (o, n, x) ∈ t.deletes) (howed : (o, n) ∉ t.rewrites) : Moves s t res o n :=
  .keep (fun id => by rw [hk]) hdel fun h => absurd h howed

theorem add_moves {owner : SessionName} {domain : DomainId} {metrics : ℕ} {defn : CollectorDef} {now : ℤ} :
    Moves s (.add owner domain metrics defn now) (s.locked env (.add owner domain metrics defn now)) o n := by
  simp only [locked]
  split
  · exact .same rfl (by simp [Task.deletes]) (by simp [Task.rewrites])
  · rename_i r e hadd
    obtain ⟨hk, _, hid, howner, hname⟩ := keys_add hadd
    have hdel : ∀ x, Deletes [Task.write e.id e.toPersisted] o n x ↔ (o, n, x) ∈ (Task.deletes (W := W)
        (.add owner domain metrics defn now)) := by
      simp [Deletes, Task.deletes]
    by_cases hon : o = owner ∧ n = defn.name
    · obtain ⟨rfl, rfl⟩ := hon
      refine .arrive (fun id hin => ?_) (.inr ⟨e.id, e.toPersisted, rfl, ⟨howner, hname⟩, ?_⟩) hdel
      · show (id, o, defn.name) ∈ r.keys
        rw [hk]
        exact List.mem_append_left _ hin
      · show (e.id, o, defn.name) ∈ r.keys
        rw [hk, hid]
        simp
    · refine .keep (fun id => ?_) hdel (by simp [Task.rewrites])
      show (id, o, n) ∈ r.keys ↔ _
      rw [hk, List.mem_append, List.mem_singleton]
      simp only [Prod.mk.injEq]
      exact or_iff_left fun hin => hon ⟨hin.2.1, hin.2.2⟩

theorem remove_moves {owner : SessionName} {name : String} :
    Moves s (.remove owner name) (s.locked env (.remove owner name)) o n := by
  simp only [locked]
  split
  · exact .same rfl (by simp [Task.deletes]) (by simp [Task.rewrites])
  · rename_i r hr
    have hmem : ∀ id, (id, o, n) ∈ r.keys ↔ (id, o, n) ∈ s.reg.keys ∧ ¬ (o = owner ∧ n = name) :=
      fun id => mem_keys_remove hr
    have hdel : ∀ x, Deletes [Task.delete (W := W) owner name s.seq] o n x ↔ o = owner ∧ n = name ∧ x = s.seq := by
      simp [Deletes, Task.deletes]
    by_cases hon : o = owner ∧ n = name
    · refine .leave (fun id hin => ((hmem id).mp hin).2 hon) (by simp [Task.deletes]) (fun x hx => ?_) fun id _ => ?_
      · exact .inr ((hdel x).mp hx).2.2
      · exact (hdel s.seq).mpr ⟨hon.1, hon.2, rfl⟩
    · refine .keep (fun id => (hmem id).trans (and_iff_left hon)) (fun x => ?_) (by simp [Task.rewrites])
      refine ⟨fun hx => absurd ⟨((hdel x).mp hx).1, ((hdel x).mp hx).2.1⟩ hon, fun hx => ?_⟩
      simp [Task.deletes] at hx

/-- What a lifecycle call has to delete and to rewrite after a change. -/
theorem mem_absorb (cs : List Lifecycle) (p q : PendingFiles) :
    (∀ x, Deletes [Task.lifecycle (W := W) cs (p.absorb q)] o n x ↔
      (o, n, x) ∈ (Task.lifecycle (W := W) cs p).deletes ∨ (o, n, x) ∈ (Task.lifecycle (W := W) cs q).deletes) ∧
    ((o, n) ∈ (Task.lifecycle (W := W) cs (p.absorb q)).rewrites ↔
      (o, n) ∈ (Task.lifecycle (W := W) cs p).rewrites ∨ (o, n) ∈ (Task.lifecycle (W := W) cs q).rewrites) := by
  refine ⟨fun x => ?_, ?_⟩
  · simp only [Deletes, List.mem_singleton, exists_eq_left, Task.deletes, PendingFiles.absorb, List.map_append,
      List.mem_append]
    tauto
  · simp [Task.rewrites, PendingFiles.absorb]

theorem move_moves {old new : SessionName} {cs : List Lifecycle} {p : PendingFiles} :
    Moves s (.lifecycle (.moveOwner old new :: cs) p) (s.locked env (.lifecycle (.moveOwner old new :: cs) p)) o n := by
  obtain ⟨hdel, hre⟩ := mem_absorb (o := o) (n := n) cs p (s.reg.moveOwner s.seq old new).2
  simp only [locked, change]
  by_cases hne : old = new
  · rw [show s.reg.moveOwner s.seq old new = (s.reg, .empty) by rw [moveOwner, if_pos hne]] at hdel hre ⊢
    refine .keep (fun id => Iff.rfl) (fun x => ?_) fun h => .inl (.inl ⟨_, List.mem_singleton_self _, hre.mpr (.inl h)⟩)
    exact (hdel x).trans (by simp [Task.deletes, PendingFiles.empty])
  have hlive : ∀ id, (id, o, n) ∈ (s.reg.moveOwner s.seq old new).1.keys ↔ _ := fun id => mem_keys_move s.seq hne
  have hunlink : (s.reg.moveOwner s.seq old new).2.unlink = [] := by simp [moveOwner, hne]
  have hq : ∀ x, (o, n, x) ∈ (Task.lifecycle (W := W) cs (s.reg.moveOwner s.seq old new).2).deletes ↔
      o = old ∧ x = s.seq ∧ ∃ id, (id, old, n) ∈ s.reg.keys := by
    intro x
    simp only [Task.deletes, hunlink, List.append_nil, List.mem_map, mem_moved hne, Prod.mk.injEq]
    refine ⟨?_, ?_⟩
    · rintro ⟨m, ⟨id, n', hk, hm⟩, h1, h2, h3⟩
      subst hm
      exact ⟨h1.symm, h3.symm, id, h2 ▸ hk⟩
    · rintro ⟨h1, h2, id, hk⟩
      exact ⟨_, ⟨id, n, hk, rfl⟩, h1.symm, rfl, h2.symm⟩
  have hq' : (o, n) ∈ (Task.lifecycle (W := W) cs (s.reg.moveOwner s.seq old new).2).rewrites ↔
      o = new ∧ ∃ id, (id, old, n) ∈ s.reg.keys := by
    simp only [Task.rewrites, List.mem_map, mem_moved hne, Prod.mk.injEq]
    refine ⟨?_, ?_⟩
    · rintro ⟨m, ⟨id, n', hk, hm⟩, h1, h2⟩
      subst hm
      exact ⟨h1.symm, id, h2 ▸ hk⟩
    · rintro ⟨h1, id, hk⟩
      exact ⟨_, ⟨id, n, hk, rfl⟩, h1.symm, rfl⟩
  have howes : (o, n) ∈ (Task.lifecycle (W := W) cs (p.absorb (s.reg.moveOwner s.seq old new).2)).rewrites →
      (⟨[Task.lifecycle cs (p.absorb (s.reg.moveOwner s.seq old new).2)], .none⟩ : Call W P).Owes
        (s.reg.moveOwner s.seq old new).1 o n :=
    fun h => .inl ⟨_, List.mem_singleton_self _, h⟩
  by_cases ho : o = old
  · -- everybody at an old place leaves
    refine .leave (fun id hin => ?_) (fun x hx => (hdel x).mpr (.inl hx)) (fun x hx => ?_) fun id hin => ?_
    · rcases (hlive id).mp hin with ⟨_, hno⟩ | ⟨hon, _⟩
      · exact hno ho
      · exact hne (ho.symm.trans hon)
    · exact ((hdel x).mp hx).imp_right fun hx => ((hq x).mp hx).2.1
    · exact (hdel s.seq).mpr (.inr ((hq s.seq).mpr ⟨ho, rfl, id, ho ▸ hin⟩))
  · have hdel' : ∀ x, Deletes [Task.lifecycle (W := W) cs (p.absorb (s.reg.moveOwner s.seq old new).2)] o n x ↔
        (o, n, x) ∈ (Task.lifecycle (W := W) (.moveOwner old new :: cs) p).deletes :=
      fun x => (hdel x).trans (or_iff_left fun hx => ho ((hq x).mp hx).1)
    by_cases harr : o = new ∧ ∃ id, (id, old, n) ∈ s.reg.keys
    · exact .arrive (fun id hin => (hlive id).mpr (.inl ⟨hin, ho⟩)) (howes (hre.mpr (.inr (hq'.mpr harr)))) hdel'
    · refine .keep (fun id => (hlive id).trans ⟨fun hin => ?_, fun hin => .inl ⟨hin, ho⟩⟩) hdel'
        fun h => .inl (howes (hre.mpr (.inl h)))
      rcases hin with ⟨hin, _⟩ | ⟨hon, hin⟩
      · exact hin
      · exact absurd ⟨hon, id, hin⟩ harr

theorem detach_moves {owner : SessionName} {cs : List Lifecycle} {p : PendingFiles} :
    Moves s (.lifecycle (.detachSession owner :: cs) p) (s.locked env (.lifecycle (.detachSession owner :: cs) p))
      o n := by
  obtain ⟨hdel, hre⟩ := mem_absorb (o := o) (n := n) cs p (s.reg.detachSession s.seq owner).2
  simp only [locked, change]
  have hlive : ∀ id, (id, o, n) ∈ (s.reg.detachSession s.seq owner).1.keys ↔ (id, o, n) ∈ s.reg.keys ∧ o ≠ owner :=
    fun id => mem_keys_detach s.seq
  have hq : ∀ x, (o, n, x) ∈ (Task.lifecycle (W := W) cs (s.reg.detachSession s.seq owner).2).deletes ↔
      o = owner ∧ x = s.seq ∧ ∃ id, (id, owner, n) ∈ s.reg.keys := by
    intro x
    have hmoved : (s.reg.detachSession s.seq owner).2.moved = [] := rfl
    simp only [Task.deletes, hmoved, List.map_nil, List.nil_append, mem_unlink, Prod.mk.injEq]
    constructor
    · rintro ⟨id, n', hk, h1, h2, h3⟩
      exact ⟨h1, h3, id, h2 ▸ hk⟩
    · rintro ⟨h1, h2, id, hk⟩
      exact ⟨id, n, hk, h1, rfl, h2⟩
  by_cases ho : o = owner
  · refine .leave (fun id hin => ((hlive id).mp hin).2 ho) (fun x hx => (hdel x).mpr (.inl hx)) (fun x hx => ?_)
      fun id hin => (hdel s.seq).mpr (.inr ((hq s.seq).mpr ⟨ho, rfl, id, ho ▸ hin⟩))
    exact ((hdel x).mp hx).imp_right fun hx => ((hq x).mp hx).2.1
  · exact .keep (fun id => (hlive id).trans (and_iff_left ho))
      (fun x => (hdel x).trans (or_iff_left fun hx => ho ((hq x).mp hx).1))
      fun h => .inl (.inl ⟨_, List.mem_singleton_self _, hre.mpr (.inl h)⟩)

theorem finish_moves {p : PendingFiles} : Moves s (.lifecycle [] p) (s.locked env (.lifecycle [] p)) o n := by
  simp only [locked]
  refine .keep (fun id => Iff.rfl) (fun x => ?_) fun h => .inl (.inl ?_)
  · simp only [finish, deletes_append, Task.deletes, List.mem_append, List.mem_map]
    simp only [Deletes, List.mem_map, exists_exists_and_eq_and, Task.deletes, List.mem_singleton, Prod.mk.injEq]
    refine or_congr (exists_congr fun m => and_congr_right fun _ => ?_) ⟨?_, fun hu => ⟨_, hu, rfl, rfl, rfl⟩⟩
    · rw [eq_comm, @eq_comm _ n, @eq_comm _ x]
    · rintro ⟨u, hu, h1, h2, h3⟩
      rw [h1, h2, h3]
      exact hu
  · simp only [Task.rewrites, List.mem_map, Prod.mk.injEq] at h
    obtain ⟨m, hm, h1, h2⟩ := h
    refine rewrites_append.mpr (.inl ⟨_, List.mem_map.mpr ⟨m, hm, rfl⟩, ?_⟩)
    simp [Task.rewrites, ← h1, ← h2]

theorem rewrite_moves {old new : SessionName} {name : String} {since : ℕ} :
    Moves s (.rewrite old new name since) (s.locked env (.rewrite old new name since)) o n := by
  simp only [locked]
  split
  · rename_i hnone
    refine .keep (fun id => Iff.rfl) (by simp [Deletes, Task.deletes]) fun h => .inr fun id hin => ?_
    simp only [Task.rewrites, List.mem_singleton, Prod.mk.injEq] at h
    obtain ⟨e, he, _, h2, h3⟩ := mem_keys.mp hin
    exact List.find?_eq_none.mp hnone e he (Entry.isNamed_iff.mpr ⟨h2.trans h.1, h3.trans h.2⟩)
  · rename_i e he
    obtain ⟨hmem, hn⟩ := find?_mem he
    obtain ⟨h2, h3⟩ := Entry.isNamed_iff.mp hn
    refine .keep (fun id => Iff.rfl) (by simp [Deletes, Task.deletes]) fun h => .inl (.inr ⟨e.id, e.toPersisted, rfl, ?_⟩)
    simp only [Task.rewrites, List.mem_singleton, Prod.mk.injEq] at h
    obtain ⟨rfl, rfl⟩ := h
    subst h2 h3
    exact ⟨⟨rfl, rfl⟩, key_mem hmem⟩

/-- **Every section is one event at each place.** -/
theorem locked_moves (ht : ∀ p, t = .editApply p → t.Names s.reg) (hjob : jobPath path t = none) :
    Moves s t (s.locked env t) o n := by
  cases t with
  | add => exact add_moves
  | editCheck =>
    simp only [locked]
    split <;> exact .same rfl (by simp [Deletes, Task.deletes]) (by simp [Task.rewrites])
  | editApply p =>
    simp only [locked]
    split
    · exact .same rfl (by simp [Task.deletes]) (by simp [Task.rewrites])
    · rename_i r out happly
      exact .same (keys_editApply happly (ht p rfl).2).1 (by simp [Task.deletes]) (by simp [Task.rewrites])
  | snapshotTake =>
    simp only [locked]
    split
    · exact .same rfl (by simp [Task.deletes]) (by simp [Task.rewrites])
    · rename_i r t htake
      exact .same (keys_snapshotTake htake).1 (by simp [Deletes, Task.deletes]) (by simp [Task.rewrites])
  | snapshotFile t =>
    have hk := (keys_snapshotFile (r := s.reg) t).1
    simp only [locked]
    split
    · rename_i r hf
      exact .same (by simpa [hf] using hk) (by simp [Task.deletes]) (by simp [Task.rewrites])
    · rename_i r file hf
      exact .same (by simpa [hf] using hk) (by simp [Deletes, Task.deletes]) (by simp [Task.rewrites])
  | reset =>
    simp only [locked]
    split
    · exact .same rfl (by simp [Task.deletes]) (by simp [Task.rewrites])
    · rename_i r v hr
      exact .same (keys_reset hr).1 (by simp [Task.deletes]) (by simp [Task.rewrites])
  | remove => exact remove_moves
  | lifecycle changes p =>
    cases changes with
    | nil => exact finish_moves
    | cons c cs =>
      cases c with
      | moveOwner => exact move_moves
      | detachSession => exact detach_moves
  | rewrite => exact rewrite_moves
  | write => simp [jobPath] at hjob
  | delete => simp [jobPath] at hjob

/-! ### A call's share of a place -/

theorem stamped_congr {tasks : List (Task W)} {g g' : Hold P} (hg : ∀ l st, g ≠ .stamped l st)
    (hg' : ∀ l st, g' ≠ .stamped l st) {tasks' : List (Task W)} (id st : ℕ) :
    (⟨tasks', g'⟩ : Call W P).Stamped o n id st ↔ (⟨tasks, g⟩ : Call W P).Stamped o n id st := by
  refine ⟨fun hs => ?_, fun hs => ?_⟩
  · obtain ⟨l, _, _, hc, _⟩ := hs.shape
    exact absurd (congrArg Call.hold hc) (hg' l st)
  · obtain ⟨l, _, _, hc, _⟩ := hs.shape
    exact absurd (congrArg Call.hold hc) (hg l st)

theorem owes_congr {tasks : List (Task W)} {g g' : Hold P} (hg' : ∀ l st, g' ≠ .stamped l st)
    (ho : (⟨tasks, g⟩ : Call W P).Owes s.reg o n) : (⟨tasks, g'⟩ : Call W P).Owes s.reg o n := by
  refine ho.imp_right fun ⟨id, file, hu, hf⟩ => ⟨id, file, ?_, hf⟩
  cases tasks with
  | nil => cases g <;> simp [Call.unstamped?] at hu
  | cons t rest =>
    cases t with
    | write id' file' =>
      cases g' with
      | stamped l st => exact absurd rfl (hg' l st)
      | _ => cases g <;> first | exact hu | cases hu
    | _ => cases g <;> cases hu

theorem deletes_afterGone {rest : List (Task W)} {x : ℕ} : Deletes (afterGone rest) o n x ↔ Deletes rest o n x := by
  unfold afterGone
  split
  · simp [deletes_cons, Task.deletes]
  · rfl

theorem rewrites_afterGone {rest : List (Task W)} : Rewrites (afterGone rest) o n ↔ Rewrites rest o n := by
  unfold afterGone
  split
  · simp [rewrites_cons, Task.rewrites]
  · rfl

/-! ### The places along a run -/

/-- Every save and every delete succeeds. -/
def succeeds (_ : Sys W P) : Action Span → Bool
  | .step _ ok => ok
  | _ => true

section Places

variable [DecidableEq P]

/-- The number of the last write the ledger remembers at a path. -/
def lastAt (s : Sys W P) (p : P) : ℕ :=
  match s.paths.get? p with
  | some l => s.last l
  | none => 0

/-- The path of `(o, n)` as a place. -/
def place (path : String → String → P) (s : Sys W P) (o : SessionName) (n : String) : Place where
  live id := (id, o, n) ∈ s.reg.keys
  doomed x := ∃ c ∈ s.calls, Deletes c.tasks o n x
  owed := ∃ c ∈ s.calls, c.Owes s.reg o n
  stamped id st := ∃ c ∈ s.calls, c.Stamped o n id st
  file := (s.disk (path o.text n)).map DiskFile.preparedFrom
  last := s.lastAt (path o.text n)

/-- What holds in every state of a run whose saves and deletes succeed. -/
structure Filed (path : String → String → P) (s : Sys W P) : Prop where
  locks : Locks path s
  known : Known s
  forgets : ∀ c ∈ s.calls, ∀ l p, c.hold = .forgetting l p → s.disk p = none ∨ s.last l = 0
  settles : ∀ o n, Settles s.seq (s.place path o n)

variable {i : ℕ} {c c' : Call W P}

theorem lastAt_of_get? {p : P} {l : ℕ} (h : s.paths.get? p = some l) : s.lastAt p = s.last l := by
  simp [lastAt, h]

/-- A step of one call that arms nobody, changes no file and forgets no
number: what the call has to do may change, what it deletes may not. -/
theorem settles_update (h : Settles s.seq (s.place path o n)) (hi : s.calls[i]? = some c)
    (hcalls : s'.calls = s.calls.set i c') (hreg : s'.reg = s.reg) (hseq : s'.seq = s.seq)
    (hdisk : s'.disk (path o.text n) = s.disk (path o.text n))
    (hlast : s'.lastAt (path o.text n) = s.lastAt (path o.text n))
    (hdel : ∀ x, Deletes c'.tasks o n x ↔ Deletes c.tasks o n x)
    (howes : c.Owes s.reg o n → c'.Owes s.reg o n) (hst : ∀ id st, c'.Stamped o n id st ↔ c.Stamped o n id st) :
    Settles s'.seq (s'.place path o n) := by
  rw [hseq]
  refine h.keep (Nat.le_refl _) (fun id => ?_) (fun x => ?_) (fun ho => .inl ?_) (fun id st => ?_) ?_ hlast
  · show (id, o, n) ∈ s'.reg.keys ↔ _
    rw [hreg]
    rfl
  · show (∃ d ∈ s'.calls, Deletes d.tasks o n x) ↔ _
    rw [hcalls]
    exact somewhere_set_congr hi (hdel x)
  · show ∃ d ∈ s'.calls, d.Owes s'.reg o n
    rw [hcalls, hreg, somewhere_set hi]
    exact ((somewhere_iff hi).mp ho).imp_left howes
  · show (∃ d ∈ s'.calls, d.Stamped o n id st) ↔ _
    rw [hcalls]
    exact somewhere_set_congr hi (hst id st)
  · show (s'.disk (path o.text n)).map _ = _
    rw [hdisk]
    rfl

/-- A section, at any place. -/
theorem settles_locked (h : Settles s.seq (s.place path o n)) {rest : List (Task W)}
    (hi : s.calls[i]? = some ⟨t :: rest, .none⟩) (hjob : jobPath path t = none) {r : CollectorRegistry W}
    {new : List (Task W)} (hm : Moves s t (r, new) o n) :
    Settles s.seq (place path { s with reg := r, calls := s.calls.set i ⟨new ++ rest, .none⟩ } o n) := by
  have hst : ∀ id st, (∃ d ∈ s.calls.set i ⟨new ++ rest, .none⟩, d.Stamped o n id st) ↔
      ∃ d ∈ s.calls, d.Stamped o n id st :=
    fun id st => somewhere_set_congr hi (by simp [Call.Stamped, Call.stamped?])
  have hdoomed : ∀ x, (∃ d ∈ s.calls.set i ⟨new ++ rest, .none⟩, Deletes d.tasks o n x) ↔
      (Deletes new o n x ∨ Deletes rest o n x) ∨ Elsewhere s.calls i fun d => Deletes d.tasks o n x := by
    intro x
    rw [somewhere_set hi, deletes_append]
  have hdoomed0 : ∀ x, (∃ d ∈ s.calls, Deletes d.tasks o n x) ↔
      ((o, n, x) ∈ t.deletes ∨ Deletes rest o n x) ∨ Elsewhere s.calls i fun d => Deletes d.tasks o n x := by
    intro x
    rw [somewhere_iff hi, deletes_cons]
  have howes : (⟨new, .none⟩ : Call W P).Owes r o n → (⟨new ++ rest, .none⟩ : Call W P).Owes r o n := by
    intro ho
    rcases ho with ho | ⟨id, file, hu, hf⟩
    · exact .inl (rewrites_append.mpr (.inl ho))
    · refine .inr ⟨id, file, ?_, hf⟩
      cases new with
      | nil => simp [Call.unstamped?] at hu
      | cons t' new =>
        cases t' with
        | write id' file' => exact hu
        | _ => simp [Call.unstamped?] at hu
  cases hm with
  | keep hlive hdel howed =>
    refine h.keep (Nat.le_refl _) hlive (fun x => ?_) (fun ho => ?_) hst rfl rfl
    · refine (hdoomed x).trans (Iff.trans ?_ (hdoomed0 x).symm)
      rw [hdel]
    · -- what the call owed was its own rewrite, or comes later in its list
      rcases (somewhere_iff hi).mp ho with ho | ho
      · rcases ho with ho | ⟨id, file, hu, _⟩
        · rcases rewrites_cons.mp ho with ho | ho
          · rcases howed ho with ho | hnone
            · exact .inl ((somewhere_set hi).mpr (.inl (howes ho)))
            · exact .inr hnone
          · exact .inl ((somewhere_set hi).mpr (.inl (.inl (rewrites_append.mpr (.inr ho)))))
        · cases t <;> simp [Call.unstamped?, jobPath] at hu hjob
      · refine .inl ((somewhere_set hi).mpr (.inr (ho.mono fun d _ hd => hd.mono fun id => (hlive id).mpr)))
  | leave hlive hmono hnew hbehind =>
    refine h.leave hlive (fun x hx => ?_) (fun x hx => ?_) (fun id hin => ?_) hst rfl rfl
    · exact (hdoomed x).mpr (((hdoomed0 x).mp hx).imp_left fun hx => hx.imp_left (hmono x))
    · rcases (hdoomed x).mp hx with (hx | hx) | hx
      · exact (hnew x hx).imp_left fun hx => (hdoomed0 x).mpr (.inl (.inl hx))
      · exact .inl ((hdoomed0 x).mpr (.inl (.inr hx)))
      · exact .inl ((hdoomed0 x).mpr (.inr hx))
    · exact (hdoomed s.seq).mpr (.inl (.inl (hbehind id hin)))
  | arrive hlive howed hdel =>
    refine h.arrive hlive ((somewhere_set hi).mpr (.inl (howes howed))) (fun x => ?_) hst rfl rfl
    refine (hdoomed x).trans (Iff.trans ?_ (hdoomed0 x).symm)
    rw [hdel]

/-- While a call has the lock of a path, the only write on its way to that
path is its own. -/
theorem Locks.stamped_own (h : Locks path s) {l : ℕ} (hi : s.calls[i]? = some c)
    (hc : c.engaged path = some (l, path o.text n)) (hm : c.hold.mutex? = some l) {d : Call W P} (hd : d ∈ s.calls)
    {id st : ℕ} (hs : d.Stamped o n id st) : d = c := by
  obtain ⟨l', file, rest, rfl, hf⟩ := hs.shape
  obtain ⟨j, hj⟩ := List.mem_iff_getElem?.mp hd
  have hji := h.exclusive hj hi (l := l') (p := path o.text n) (by simp [Call.engaged, jobPath, hf.1, hf.2]) hc rfl hm
  rw [hji] at hj
  exact Option.some.inj (hj.symm.trans hi)

theorem lastAt_update_ne (h : Locks path s) {p q : P} {l st : ℕ} (hp : s.paths.get? p = some l) (hne : q ≠ p)
    {calls : List (Call W P)} {disk : P → Option (DiskFile W)} :
    lastAt { s with last := Function.update s.last l st, calls := calls, disk := disk } q = s.lastAt q := by
  unfold lastAt
  show (match s.paths.get? q with | some l' => Function.update s.last l st l' | none => 0) = _
  cases hq : s.paths.get? q with
  | none => rfl
  | some l' =>
    have hl : l' ≠ l := fun hl => hne (h.inj q p l (hl ▸ hq) hp)
    simp [Function.update_of_ne hl]

theorem lastAt_pathLock (h : Locks path s) {tasks : List (Task W)} {p q : P} :
    (s.pathLock i tasks p).lastAt q = s.lastAt q := by
  unfold pathLock
  split
  · rfl
  · rename_i hnone
    unfold lastAt
    show (match (s.paths.insert p s.nextLock).get? q with
      | some l => Function.update s.last s.nextLock 0 l | none => 0) = _
    rw [FMap.get?_insert]
    by_cases hqp : q = p
    · simp [hqp, hnone]
    · rw [if_neg hqp]
      cases hq : s.paths.get? q with
      | none => rfl
      | some l => simp [Function.update_of_ne (Nat.ne_of_lt (h.bound q l hq))]

namespace Filed

/-- A step that neither arms, nor saves, nor deletes, nor forgets. -/
theorem hold (h : Filed path s) (hlocks : Locks path s') (hknown : Known s') {tasks : List (Task W)} {g g' : Hold P}
    (hi : s.calls[i]? = some ⟨tasks, g⟩) (hcalls : s'.calls = s.calls.set i ⟨tasks, g'⟩) (hreg : s'.reg = s.reg)
    (hseq : s'.seq = s.seq) (hdisk : s'.disk = s.disk) (hlast : ∀ p, s'.lastAt p = s.lastAt p)
    (hlast' : ∀ c ∈ s.calls, ∀ l p, c.hold = .forgetting l p → s'.last l = s.last l)
    (hg : ∀ l st, g ≠ .stamped l st) (hg' : ∀ l st, g' ≠ .stamped l st) (hf : ∀ l p, g' ≠ .forgetting l p) :
    Filed path s' := by
  refine ⟨hlocks, hknown, ?_, fun o n => ?_⟩
  · rw [hcalls, hdisk]
    refine forall_set (fun d hd l p hh => ?_) fun l p hh => absurd hh (hf l p)
    rw [hlast' d hd l p hh]
    exact h.forgets d hd l p hh
  · exact settles_update (h.settles o n) hi hcalls hreg hseq (by rw [hdisk]) (hlast _) (fun x => Iff.rfl)
      (owes_congr hg') (stamped_congr hg hg')

theorem locked (h : Filed path s) {rest : List (Task W)} (hi : s.calls[i]? = some ⟨t :: rest, .none⟩)
    (hjob : jobPath path t = none) (hlocks : Locks path { s with
      reg := (s.locked env t).1, calls := s.calls.set i ⟨(s.locked env t).2 ++ rest, .none⟩ })
    (hknown : Known { s with
      reg := (s.locked env t).1, calls := s.calls.set i ⟨(s.locked env t).2 ++ rest, .none⟩ }) :
    Filed path { s with
      reg := (s.locked env t).1, calls := s.calls.set i ⟨(s.locked env t).2 ++ rest, .none⟩ } := by
  have hnames := h.known.names _ (List.mem_of_getElem? hi) t List.mem_cons_self
  refine ⟨hlocks, hknown, forall_set h.forgets (by simp), fun o n => ?_⟩
  exact settles_locked (h.settles o n) hi hjob (locked_moves (fun _ _ => hnames) hjob)

theorem writeDecide (h : Filed path s) {l id : ℕ} {file : PersistedCollector W} {rest : List (Task W)}
    (hi : s.calls[i]? = some ⟨.write id file :: rest, .held l⟩) (hlocks : Locks path (s.writeDecide path i l id file rest))
    (hknown : Known (s.writeDecide path i l id file rest)) : Filed path (s.writeDecide path i l id file rest) := by
  have hmem := List.mem_of_getElem? hi
  have hlive := h.known.live_of_any hmem
  unfold Sys.writeDecide at hlocks hknown ⊢
  split
  · rename_i hany
    rw [if_pos hany] at hlocks hknown
    obtain ⟨o1, hown, hkey⟩ := hlive.mp hany
    refine ⟨hlocks, hknown, forall_set h.forgets (by simp), fun o n => ?_⟩
    by_cases hof : file.IsOf o n
    · have ho : o = o1 := by
        obtain ⟨_, _⟩ := o
        obtain ⟨_, _⟩ := o1
        simpa using hof.1.symm.trans hown
      refine (h.settles o n).stamp (a := id) ?_ (fun _ => Iff.rfl)
        (fun x => somewhere_set_congr hi Iff.rfl) (fun id' st => ?_) rfl rfl
      · show (id, o, n) ∈ s.reg.keys
        rw [ho, ← hof.2]
        exact hkey
      · show (∃ d ∈ s.calls.set i _, d.Stamped o n id' st) ↔ (∃ d ∈ s.calls, d.Stamped o n id' st) ∨ _
        rw [somewhere_set hi, somewhere_iff hi]
        have hnew : (⟨.write id file :: rest, .stamped l (s.seq + 1)⟩ : Call W P).Stamped o n id' st ↔
            id' = id ∧ st = s.seq + 1 := by
          simp only [Call.Stamped, Call.stamped?, Option.some.injEq, Prod.mk.injEq]
          exact ⟨fun ⟨_, ⟨h1, _, h3⟩, _⟩ => ⟨h1.symm, h3.symm⟩, fun ⟨h1, h2⟩ => ⟨file, ⟨h1.symm, rfl, h2.symm⟩, hof⟩⟩
        have hold : ¬ (⟨.write id file :: rest, .held l⟩ : Call W P).Stamped o n id' st := by
          simp [Call.Stamped, Call.stamped?]
        rw [hnew, or_iff_right hold, or_comm]
    · -- another place: only the clock has moved
      refine (h.settles o n).keep (Nat.le_succ _) (fun _ => Iff.rfl) (fun x => somewhere_set_congr hi Iff.rfl)
        (fun ho => .inl ?_) (fun id' st => somewhere_set_congr hi ?_) rfl rfl
      · refine (somewhere_set hi).mpr (((somewhere_iff hi).mp ho).imp_left fun ho => ?_)
        rcases ho with ho | ⟨_, _, hu, hf, _⟩
        · exact .inl ho
        · simp only [Call.unstamped?, Option.some.injEq, Prod.mk.injEq] at hu
          exact absurd (hu.2 ▸ hf) hof
      · simp only [Call.Stamped, Call.stamped?]
        refine ⟨fun ⟨f, hf, hf'⟩ => ?_, by simp⟩
        simp only [Option.some.injEq, Prod.mk.injEq] at hf
        exact absurd (hf.2.1 ▸ hf') hof
  · rename_i hany
    rw [if_neg hany] at hlocks hknown
    have hns : ∀ l' st, (if s.last l = 0 then Hold.forgetting l (path file.owner file.name) else .leaving l) ≠
        .stamped l' st := by
      intro l' st
      split <;> simp
    refine ⟨hlocks, hknown, forall_set h.forgets (fun l' p hh => ?_), fun o n => ?_⟩
    · dsimp only at hh
      split at hh
      · rename_i hz
        obtain ⟨rfl, rfl⟩ := Hold.forgetting.inj hh
        exact .inr hz
      · simp at hh
    · refine settles_update (h.settles o n) hi rfl rfl rfl rfl rfl (fun x => ?_) (fun ho => ?_)
        (stamped_congr (by simp) hns)
      · rw [deletes_afterGone, deletes_cons]
        simp [Task.deletes]
      · rcases ho with ho | ⟨id', f, hu, hf, hk⟩
        · refine .inl (rewrites_afterGone.mpr ?_)
          simpa [rewrites_cons, Task.rewrites] using ho
        · simp only [Call.unstamped?, Option.some.injEq, Prod.mk.injEq] at hu
          obtain ⟨rfl, rfl⟩ := hu
          exact absurd (hlive.mpr ⟨o, hf.1, hf.2 ▸ hk⟩) hany

variable (hpath : ∀ a b a' b', path a b = path a' b' → a = a' ∧ b = b')

include hpath in
theorem writeSave (h : Filed path s) {l st id : ℕ} {file : PersistedCollector W} {rest : List (Task W)}
    (hi : s.calls[i]? = some ⟨.write id file :: rest, .stamped l st⟩)
    (hlocks : Locks path (s.writeSave path i l st id file rest true))
    (hknown : Known (s.writeSave path i l st id file rest true)) :
    Filed path (s.writeSave path i l st id file rest true) := by
  have hmem := List.mem_of_getElem? hi
  have hp : s.paths.get? (path file.owner file.name) = some l := h.locks.entry _ hmem l _ rfl
  simp only [Sys.writeSave, if_true] at hlocks hknown ⊢
  refine ⟨hlocks, hknown, ?_, fun o n => ?_⟩
  · -- a call about to forget another path keeps its file and its number
    intro d hd l' q hh
    obtain ⟨j, hj⟩ := List.mem_iff_getElem?.mp hd
    by_cases hji : j = i
    · rw [hji, getElem?_set_self' hi] at hj
      obtain rfl := Option.some.inj hj
      simp at hh
    · rw [List.getElem?_set_ne (Ne.symm hji)] at hj
      have hd' := List.mem_of_getElem? hj
      have heng : d.engaged path = some (l', q) := by
        obtain ⟨tasks, g⟩ := d
        obtain rfl : g = .forgetting l' q := hh
        rfl
      have hq := h.locks.entry d hd' l' q heng
      have hqp : q ≠ path file.owner file.name := by
        rintro rfl
        exact hji (@Locks.exclusive _ _ _ _ _ h.locks _ _ _ l _ _ _ hj hi heng rfl (by rw [hh]; rfl) rfl)
      have hl : l' ≠ l := fun hl => hqp (h.locks.inj q _ l (hl ▸ hq) hp)
      simpa [Function.update_of_ne hqp, Function.update_of_ne hl] using h.forgets d hd' l' q hh
  · have hdel : ∀ x, (∃ d ∈ s.calls.set i ⟨rest, .leaving l⟩, Deletes d.tasks o n x) ↔
        ∃ d ∈ s.calls, Deletes d.tasks o n x := by
      intro x
      refine somewhere_set_congr hi ?_
      simp [deletes_cons, Task.deletes]
    have howes : (∃ d ∈ s.calls, d.Owes s.reg o n) → ∃ d ∈ s.calls.set i ⟨rest, .leaving l⟩, d.Owes s.reg o n := by
      intro ho
      refine (somewhere_set hi).mpr (((somewhere_iff hi).mp ho).imp_left fun ho => ?_)
      rcases ho with ho | ⟨_, _, hu, _⟩
      · exact .inl (by simpa [rewrites_cons, Task.rewrites] using ho)
      · simp [Call.unstamped?] at hu
    have hleft : ∀ id' st', ¬ (⟨rest, .leaving l⟩ : Call W P).Stamped o n id' st' := by
      simp [Call.Stamped, Call.stamped?]
    by_cases hof : file.IsOf o n
    · have hpl : path file.owner file.name = path o.text n := by rw [hof.1, hof.2]
      have hown : ∀ {d : Call W P} {id' st' : ℕ}, d ∈ s.calls → d.Stamped o n id' st' →
          d = ⟨.write id file :: rest, .stamped l st⟩ :=
        fun hd hs => h.locks.stamped_own hi (by rw [← hpl]; rfl) rfl hd hs
      have huniq : ∀ id' st', (∃ d ∈ s.calls, d.Stamped o n id' st') → id' = id ∧ st' = st := by
        rintro id' st' ⟨d, hd, hs⟩
        rw [hown hd hs] at hs
        obtain ⟨f, hf, _⟩ := hs
        simp only [Call.stamped?, Option.some.injEq, Prod.mk.injEq] at hf
        exact ⟨hf.1.symm, hf.2.2.symm⟩
      refine (h.settles o n).save (a := id) (k := st) ⟨_, hmem, file, rfl, hof⟩ huniq (fun _ => Iff.rfl) hdel howes
        ?_ ?_ ?_
      · intro id' st' hs
        rcases (somewhere_set hi).mp hs with hs | ⟨j, d, hj, hd, hs⟩
        · exact hleft id' st' hs
        · have heq := hown (List.mem_of_getElem? hd) hs
          rw [heq] at hd
          exact hj (h.locks.mutex j i _ _ l hd hi rfl rfl)
      · show (Function.update s.disk (path file.owner file.name) (some ⟨id, file⟩) (path o.text n)).map _ = _
        rw [hpl]
        simp
      · show lastAt _ (path o.text n) = st
        rw [← hpl]
        simp [lastAt, hp]
    · have hne : path o.text n ≠ path file.owner file.name := by
        intro he
        obtain ⟨h1, h2⟩ := hpath _ _ _ _ he
        exact hof ⟨h1.symm, h2.symm⟩
      refine (h.settles o n).keep (Nat.le_refl _) (fun _ => Iff.rfl) hdel (fun ho => .inl (howes ho))
        (fun id' st' => somewhere_set_congr hi ?_) ?_ (lastAt_update_ne h.locks hp hne)
      · refine iff_of_false (hleft id' st') ?_
        rintro ⟨f, hf, hf'⟩
        simp only [Call.stamped?, Option.some.injEq, Prod.mk.injEq] at hf
        exact hof (hf.2.1 ▸ hf')
      · show (Function.update s.disk (path file.owner file.name) (some ⟨id, file⟩) (path o.text n)).map _ = _
        rw [Function.update_of_ne hne]
        rfl

include hpath in
theorem deleteDecide (h : Filed path s) {l since : ℕ} {owner : SessionName} {name : String} {rest : List (Task W)}
    (hi : s.calls[i]? = some ⟨.delete owner name since :: rest, .held l⟩)
    (hlocks : Locks path (s.deleteDecide path i l owner name since rest true))
    (hknown : Known (s.deleteDecide path i l owner name since rest true)) :
    Filed path (s.deleteDecide path i l owner name since rest true) := by
  have hmem := List.mem_of_getElem? hi
  have hp : s.paths.get? (path owner.text name) = some l := h.locks.entry _ hmem l _ rfl
  have hlastp : s.lastAt (path owner.text name) = s.last l := lastAt_of_get? hp
  have hdel : ∀ {g : Hold P} o n x, (∃ d ∈ s.calls, Deletes d.tasks o n x) ↔
      (o = owner ∧ n = name ∧ x = since) ∨ ∃ d ∈ s.calls.set i ⟨rest, g⟩, Deletes d.tasks o n x := by
    intro g o n x
    rw [somewhere_iff hi, somewhere_set hi, deletes_cons]
    simp [Task.deletes, or_assoc]
  have howes : ∀ {g : Hold P} o n, (∀ l st, g ≠ .stamped l st) → (∃ d ∈ s.calls, d.Owes s.reg o n) →
      ∃ d ∈ s.calls.set i ⟨rest, g⟩, d.Owes s.reg o n := by
    intro g o n hg ho
    refine (somewhere_set hi).mpr (((somewhere_iff hi).mp ho).imp_left fun ho => ?_)
    rcases ho with ho | ⟨_, _, hu, _⟩
    · exact .inl (by simpa [rewrites_cons, Task.rewrites] using ho)
    · simp [Call.unstamped?] at hu
  have hst : ∀ {g : Hold P} o n id st, (∀ l st, g ≠ .stamped l st) →
      ((∃ d ∈ s.calls.set i ⟨rest, g⟩, d.Stamped o n id st) ↔ ∃ d ∈ s.calls, d.Stamped o n id st) :=
    fun o n id st hg => somewhere_set_congr hi (stamped_congr (by simp) hg id st)
  have hnone : ∀ id st, ¬ ∃ d ∈ s.calls, d.Stamped owner name id st := by
    intro id st ⟨d, hd, hs⟩
    rw [h.locks.stamped_own hi (l := l) rfl rfl hd hs] at hs
    simp [Call.Stamped, Call.stamped?] at hs
  -- at another place the delete was not one to come
  have hother : ∀ {g : Hold P} o n x, ¬ (o = owner ∧ n = name) →
      ((∃ d ∈ s.calls.set i ⟨rest, g⟩, Deletes d.tasks o n x) ↔ ∃ d ∈ s.calls, Deletes d.tasks o n x) := by
    intro g o n x hon
    exact ((hdel o n x).trans (or_iff_right fun hx => hon ⟨hx.1, hx.2.1⟩)).symm
  unfold Sys.deleteDecide at hlocks hknown ⊢
  split
  · rename_i hlt
    rw [if_pos hlt] at hlocks hknown
    refine ⟨hlocks, hknown, forall_set h.forgets (by simp), fun o n => ?_⟩
    by_cases hon : o = owner ∧ n = name
    · obtain ⟨rfl, rfl⟩ := hon
      refine (h.settles o n).spare (k := since) (by rw [show (s.place path o n).last = _ from hlastp]; exact hlt) hnone
        (fun _ => Iff.rfl) (fun x hx => (hdel o n x).mpr (.inr hx)) (fun x hx => ?_) (howes o n (by simp))
        (fun id st => hst o n id st (by simp)) rfl rfl
      rcases (hdel o n x).mp hx with ⟨_, _, hx⟩ | hx
      · exact .inr hx
      · exact .inl hx
    · exact (h.settles o n).keep (Nat.le_refl _) (fun _ => Iff.rfl) (fun x => hother o n x hon)
        (fun ho => .inl (howes o n (by simp) ho)) (fun id st => hst o n id st (by simp)) rfl rfl
  · rename_i hle
    rw [if_neg hle] at hlocks hknown
    simp only [if_true] at hlocks hknown ⊢
    refine ⟨hlocks, hknown, forall_set (fun d hd l' q hh => ?_) (fun l' q hh => ?_), fun o n => ?_⟩
    · by_cases hq : q = path owner.text name
      · exact .inl (by simp [hq])
      · simpa [Function.update_of_ne hq] using h.forgets d hd l' q hh
    · obtain ⟨rfl, rfl⟩ := Hold.forgetting.inj hh
      exact .inl (by simp)
    · by_cases hon : o = owner ∧ n = name
      · obtain ⟨rfl, rfl⟩ := hon
        refine (h.settles o n).unlink (k := since) ((hdel (g := .none) o n since).mpr (.inl ⟨rfl, rfl, rfl⟩)) ?_ hnone
          (fun _ => Iff.rfl) (fun x hx => (hdel o n x).mpr (.inr hx)) (howes o n (by simp))
          (fun id st => hst o n id st (by simp)) ?_ rfl
        · rw [show (s.place path o n).last = _ from hlastp]
          omega
        · show (Function.update s.disk (path o.text n) none (path o.text n)).map _ = _
          simp
      · have hne : path o.text n ≠ path owner.text name := fun he => by
          obtain ⟨h1, h2⟩ := hpath _ _ _ _ he
          obtain ⟨_, _⟩ := o
          obtain ⟨_, _⟩ := owner
          exact hon ⟨by simpa using h1, h2⟩
        refine (h.settles o n).keep (Nat.le_refl _) (fun _ => Iff.rfl) (fun x => hother o n x hon)
          (fun ho => .inl (howes o n (by simp) ho)) (fun id st => hst o n id st (by simp)) ?_ rfl
        show (Function.update s.disk (path owner.text name) none (path o.text n)).map _ = _
        rw [Function.update_of_ne hne]
        rfl

theorem forget (h : Filed path s) {tasks : List (Task W)} {l : ℕ} {p : P}
    (hi : s.calls[i]? = some ⟨tasks, .forgetting l p⟩) (hlocks : Locks path (s.forget i l tasks p))
    (hknown : Known (s.forget i l tasks p)) : Filed path (s.forget i l tasks p) := by
  have hmem := List.mem_of_getElem? hi
  have hp : s.paths.get? p = some l := h.locks.entry _ hmem l p rfl
  have hsafe := h.forgets _ hmem l p rfl
  have hlast : ∀ q, q ≠ p → (s.forget i l tasks p).lastAt q = s.lastAt q := by
    intro q hq
    unfold lastAt Sys.forget
    by_cases hcount : s.strongCount l = 2
    · simp [hcount, FMap.get?_erase, hq]
    · simp [hcount]
  refine ⟨hlocks, hknown, forall_set h.forgets (by simp), fun o n => ?_⟩
  by_cases hq : path o.text n = p ∧ s.strongCount l = 2
  · obtain ⟨rfl, hcount⟩ := hq
    refine (h.settles o n).forget ?_ (fun _ => Iff.rfl) (fun x => somewhere_set_congr hi Iff.rfl) (fun ho => ?_)
      (fun id st => somewhere_set_congr hi (stamped_congr (by simp) (by simp) id st)) rfl ?_
    · refine hsafe.imp (fun hd => ?_) fun hz => (lastAt_of_get? hp).trans hz
      show (s.disk (path o.text n)).map _ = _
      rw [hd]
      rfl
    · exact (somewhere_set hi).mpr (((somewhere_iff hi).mp ho).imp_left (owes_congr (by simp)))
    · show lastAt (s.forget i l tasks (path o.text n)) (path o.text n) = 0
      unfold lastAt Sys.forget
      simp [hcount, FMap.get?_erase]
  · refine settles_update (h.settles o n) hi rfl rfl rfl rfl ?_ (fun x => Iff.rfl) (owes_congr (by simp))
      (stamped_congr (by simp) (by simp))
    by_cases hpo : path o.text n = p
    · have hcount : s.strongCount l ≠ 2 := fun hc => hq ⟨hpo, hc⟩
      unfold lastAt Sys.forget
      simp [hcount]
    · exact hlast _ hpo

theorem call (h : Filed path s) (req : Request) :
    Filed path { s with calls := s.calls ++ [⟨[req.task], .none⟩] } := by
  have hmem : ∀ {Q : Call W P → Prop}, ¬ Q ⟨[req.task], .none⟩ →
      ((∃ d ∈ s.calls ++ [⟨[req.task], .none⟩], Q d) ↔ ∃ d ∈ s.calls, Q d) := by
    intro Q hQ
    simp only [List.mem_append, List.mem_singleton, or_and_right, exists_or, exists_eq_left, or_iff_left hQ]
  refine ⟨h.locks.call req.task, ⟨h.known.distinct, fun c hc t ht => ?_⟩, fun c hc l p hh => ?_, fun o n => ?_⟩
  · rcases List.mem_append.mp hc with hc | hc
    · exact h.known.names c hc t ht
    · obtain rfl := List.mem_singleton.mp hc
      obtain rfl := List.mem_singleton.mp ht
      cases req <;> trivial
  · rcases List.mem_append.mp hc with hc | hc
    · exact h.forgets c hc l p hh
    · obtain rfl := List.mem_singleton.mp hc
      simp at hh
  · refine (h.settles o n).keep (Nat.le_refl _) (fun _ => Iff.rfl) (fun x => hmem ?_) (fun ho => .inl ?_)
      (fun id st => hmem ?_) rfl rfl
    · cases req <;> simp [Deletes, Request.task, Task.deletes, PendingFiles.empty]
    · obtain ⟨d, hd, hq⟩ := ho
      exact ⟨d, List.mem_append_left _ hd, hq⟩
    · simp [Call.Stamped, Call.stamped?]

include hpath in
/-- **Every step whose save or delete succeeds keeps every path settling.** -/
theorem step (h : Filed path s) {a : Action Span} (hok : s.succeeds a = true)
    (hs : s.step path env a = some s') : Filed path s' := by
  have hlocks := h.locks.step hs
  have hknown := h.known.step hs
  rcases step_cases path hs with ⟨req, _, rfl⟩ | ⟨i, ok, c, ha, hi, hstep⟩ | ⟨m, k, t, _, rfl⟩ | ⟨d, sp, _, rfl⟩
  · exact h.call req
  · subst ha
    obtain rfl : ok = true := hok
    cases hstep with
    | locked hjob => exact h.locked hi hjob hlocks hknown
    | lock hjob =>
      rename_i t rest p
      have hlast' : ∀ c ∈ s.calls, ∀ l q, c.hold = .forgetting l q →
          (s.pathLock i (t :: rest) p).last l = s.last l := by
        intro c hc l q hh
        have hlt : l < s.nextLock := h.locks.clones c hc l (by rw [hh]; rfl)
        unfold pathLock
        split
        · rfl
        · simp [Function.update_of_ne (Nat.ne_of_lt hlt)]
      obtain ⟨l, hcalls, hreg, hseq, hdisk⟩ := s.pathLock_frame i (t :: rest) p
      exact h.hold hlocks hknown hi hcalls hreg hseq hdisk (fun q => lastAt_pathLock h.locks) hlast' (by simp) (by simp)
        (by simp)
    | acquire =>
      exact h.hold hlocks hknown hi rfl rfl rfl rfl (fun _ => rfl) (fun _ _ _ _ _ => rfl) (by simp) (by simp) (by simp)
    | decideWrite => exact h.writeDecide hi hlocks hknown
    | decideDelete => exact h.deleteDecide hpath hi hlocks hknown
    | save => exact h.writeSave hpath hi hlocks hknown
    | forget => exact h.forget hi hlocks hknown
    | release =>
      exact h.hold hlocks hknown hi rfl rfl rfl rfl (fun _ => rfl) (fun _ _ _ _ _ => rfl) (by simp) (by simp) (by simp)
    | drop =>
      exact h.hold hlocks hknown hi rfl rfl rfl rfl (fun _ => rfl) (fun _ _ _ _ _ => rfl) (by simp) (by simp) (by simp)
  · exact ⟨hlocks, hknown, h.forgets, h.settles⟩
  · have hk := (keys_ingestSpan (r := s.reg) env d sp).1
    refine ⟨hlocks, hknown, h.forgets, fun o n => ?_⟩
    refine (h.settles o n).keep (Nat.le_refl _) (fun id => ?_) (fun _ => Iff.rfl) (fun ho => .inl ?_)
      (fun _ _ => Iff.rfl) rfl rfl
    · show (id, o, n) ∈ (s.reg.ingestSpan env d sp).keys ↔ _
      rw [hk]
      rfl
    · obtain ⟨c, hc, ho⟩ := ho
      exact ⟨c, hc, ho.mono fun id hin => by rw [hk]; exact hin⟩

end Filed

end Places

/-! ### Directories that agree -/

/-- The directory holds a file exactly where a collector is armed, prepared
from a collector armed there. -/
def FilesAgree (path : String → String → P) (s : Sys W P) : Prop :=
  ∀ o n, ((s.disk (path o.text n)).isSome ↔ ∃ e ∈ s.reg.entries, e.owner = o ∧ e.name = n) ∧
    ∀ f, s.disk (path o.text n) = some f → ∃ e ∈ s.reg.entries, e.id = f.preparedFrom ∧ e.owner = o ∧ e.name = n

end Sys

open Sys

/-- **The collector directory settles.** Whatever the calls and however their
steps interleave, as long as every save and delete succeeds: once all calls
have returned, the canonical path of an owner and a name has a file exactly
when a collector is armed under them, and the file was prepared from a
collector armed there. -/
theorem collector_files_settle [DecidableEq P] (env : CollectorEnv W Span) (path : String → String → P)
    (hpath : ∀ a b a' b', path a b = path a' b' → a = a' ∧ b = b') (reg : CollectorRegistry W)
    (metrics : ℕ → ReceiverMetrics) (disk : P → Option (DiskFile W)) (hids : reg.Distinct)
    (hstart : FilesAgree path (Sys.start reg metrics disk)) {s : Sys W P}
    (hreach : Reach (Sys.step path env) (fun s a => s.succeeds a = true) (Sys.start reg metrics disk) s)
    (hreturned : ∀ c ∈ s.calls, c.Returned) : FilesAgree path s := by
  have hfiled : Filed path s := by
    refine hreach.invariant (I := Filed path) ⟨.start reg metrics disk, .start hids metrics disk, by simp [Sys.start],
      fun o n => ?_⟩ fun s a s' h hgood hs => h.step hpath hgood hs
    obtain ⟨hiff, hfrom⟩ := hstart o n
    have hlive : ∀ f, disk (path o.text n) = some f → (f.preparedFrom, o, n) ∈ reg.keys :=
      fun f hf => mem_keys.mpr (hfrom f hf)
    refine ⟨fun hl => .inr (.inr ⟨by simp [place, Sys.start], ?_⟩), fun id hf => .inl ?_, by simp [place, Sys.start],
      by simp [place, Sys.start], by simp [place, Sys.start], by simp [place, Sys.start, lastAt]⟩
    · obtain ⟨id, hid⟩ := hl
      obtain ⟨e, he, _, ho, hn⟩ := mem_keys.mp hid
      obtain ⟨f, hf⟩ := Option.isSome_iff_exists.mp (hiff.mpr ⟨e, he, ho, hn⟩)
      exact ⟨f.preparedFrom, by simp [place, hf], hlive f hf, by simp [place, Sys.start]⟩
    · obtain ⟨f, hdisk, rfl⟩ := Option.map_eq_some_iff.mp hf
      exact hlive f hdisk
  intro o n
  have hnone : ∀ c ∈ s.calls, c = ⟨[], .none⟩ := fun c hc => by
    obtain ⟨ht, hh⟩ := hreturned c hc
    obtain ⟨tasks, g⟩ := c
    exact congr (congrArg Call.mk ht) hh
  have howes : ¬ ∃ c ∈ s.calls, c.Owes s.reg o n := by
    rintro ⟨c, hc, ho⟩
    rw [hnone c hc] at ho
    simp [Call.Owes, Rewrites, Call.unstamped?] at ho
  have hdel : ∀ x, ¬ ∃ c ∈ s.calls, Deletes c.tasks o n x := by
    rintro x ⟨c, hc, hx⟩
    rw [hnone c hc] at hx
    exact not_deletes_nil hx
  have hstamped : ∀ id st, ¬ ∃ c ∈ s.calls, c.Stamped o n id st := by
    rintro id st ⟨c, hc, hs⟩
    rw [hnone c hc] at hs
    simp [Call.Stamped, Call.stamped?] at hs
  obtain ⟨hiff, hfrom⟩ := (hfiled.settles o n).settled howes hdel hstamped
  refine ⟨⟨fun hf => ?_, ?_⟩, fun f hf => ?_⟩
  · obtain ⟨id, hid⟩ := hiff.mp (by simpa [place] using hf)
    obtain ⟨e, he, _, ho, hn⟩ := mem_keys.mp hid
    exact ⟨e, he, ho, hn⟩
  · rintro ⟨e, he, ho, hn⟩
    have hid : (e.id, o, n) ∈ s.reg.keys := mem_keys.mpr ⟨e, he, rfl, ho, hn⟩
    simpa [place] using hiff.mpr ⟨e.id, hid⟩
  · exact mem_keys.mp (hfrom f.preparedFrom (by simp [place, hf]))

/-- A write that is under way when its collector is removed and its name taken
again, a delete that finds it and a new write that waited behind both. -/
def rearmActs (o : SessionName) : List (Action Unit) :=
  [.call (.add o ⟨"default"⟩ 0 (.sample "c" 4) 0), .step 0 true, .step 0 true, .step 0 true, .step 0 true,
    .call (.remove o "c"), .step 1 true, .call (.add o ⟨"default"⟩ 0 (.sample "c" 4) 0), .step 2 true, .step 2 true,
    .step 0 true, .step 0 true, .step 0 true, .step 1 true, .step 1 true, .step 1 true, .step 1 true, .step 1 true,
    .step 1 true, .step 2 true, .step 2 true, .step 2 true, .step 2 true, .step 2 true]

theorem collector_files_settle_rearmed : ∃ s : Sys ℕ (String × String),
    runActs (Sys.step Prod.mk .counting) (Sys.start (.withBudget 10) (fun _ => .new) fun _ => none)
      (rearmActs ⟨"o", by decide⟩) = some s ∧
    s.reg.entries.map Entry.id = [2] ∧ (s.disk ("o", "c")).map DiskFile.preparedFrom = some 2 ∧
    FilesAgree Prod.mk s := by
  have hstart : FilesAgree (W := ℕ) Prod.mk (Sys.start (.withBudget 10) (fun _ => .new) fun _ => none) := by
    intro o n
    simp [Sys.start, withBudget]
  refine ⟨_, rfl, by decide, by decide, ?_⟩
  exact collector_files_settle .counting Prod.mk (by simp) _ _ _ ⟨by simp [withBudget, keys], by simp [withBudget, keys]⟩
    hstart (reach_guarded (fun _ _ h => h) (rearmActs ⟨"o", by decide⟩) .start rfl) (by decide)

end Logmon
