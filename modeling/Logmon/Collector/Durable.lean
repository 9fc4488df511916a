/-
# What keeps a file in step with its collector

A file is prepared under the registry's lock and saved after it is released,
and an edit saves before it changes the collector. So a collector that its file
does not describe is one a call in flight still has work for (`Sys.Covered`):
it saves a file that does, or applies an edit, or files a snapshot. A section
and a save keep this, where what they leave undescribed is somebody's work.

Key definitions: `PersistedCollector.Agrees`, `Task.Covers`, `Sys.Durable`.
Key theorems: `Sys.locked_covered`, `Sys.Durable.locked`, `Sys.Durable.save`.
-/
import Logmon.Collector.Keys

namespace Logmon

open Lib CollectorRegistry

variable {W Span P : Type}

/-- The two say the same, but for when the collector was armed: an edit's file
bears the time its collector was armed before it. -/
def PersistedCollector.Agrees (f g : PersistedCollector W) : Prop := { f with armedAt := g.armedAt } = g

instance [DecidableEq W] (f g : PersistedCollector W) : Decidable (f.Agrees g) :=
  inferInstanceAs (Decidable ({ f with armedAt := g.armedAt } = g))

theorem PersistedCollector.Agrees.refl (f : PersistedCollector W) : f.Agrees f := rfl

/-- The file an edit prepared describes the collector it leaves. -/
theorem agrees_edited {env : CollectorEnv W Span} {loss : ℕ → TraceIngestLoss} {p : PendingEdit W} {e : Entry W}
    {f : PersistedCollector W} (h : f.Agrees (e.persistedWith p.defn p.targetDomain)) :
    f.Agrees (edited env loss p e).toPersisted := by
  have himage : (edited env loss p e).toPersisted =
      { e.persistedWith p.defn p.targetDomain with armedAt := (edited env loss p e).collector.armedAt } := by
    simp [Entry.toPersisted, Entry.persistedWith]
  rw [himage]
  unfold PersistedCollector.Agrees at h ⊢
  rw [← h]

/-! ### What covers a collector -/

/-- The job leaves the collector described by its file: it saves a file that
does, or goes on to prepare one. -/
def Task.Covers (e : Entry W) : Task W → Prop
  | .write id file => id = e.id ∧ file.Agrees e.toPersisted
  | .editApply p => p.id = e.id
  | .snapshotFile t => t.id = e.id
  | _ => False

/-- A job of such a run, for a collector that is armed. -/
def Task.Sound (r : CollectorRegistry W) : Task W → Prop
  | .write id file => ∃ o, file.owner = o.text ∧ (id, o, file.name) ∈ r.keys
  | .editApply p => (p.id, p.owner, p.defn.name) ∈ r.keys
  | .snapshotFile t => ∃ o n, (t.id, o, n) ∈ r.keys
  | .remove _ _ => False
  | .lifecycle _ _ => False
  | .rewrite _ _ _ _ => False
  | .delete _ _ _ => False
  | _ => True

theorem Task.Sound.mono {r r' : CollectorRegistry W} (h : ∀ k ∈ r.keys, k ∈ r'.keys) {t : Task W} (ht : t.Sound r) :
    t.Sound r' := by
  cases t with
  | write id file =>
    obtain ⟨o, ho, hk⟩ := ht
    exact ⟨o, ho, h _ hk⟩
  | editApply p => exact h _ ht
  | snapshotFile t =>
    obtain ⟨o, n, hk⟩ := ht
    exact ⟨o, n, h _ hk⟩
  | remove _ _ => exact ht
  | lifecycle _ _ => exact ht
  | rewrite _ _ _ _ => exact ht
  | delete _ _ _ => exact ht
  | _ => trivial

/-- The same collector, with the same file to write. -/
def Entry.SameImage (e e' : Entry W) : Prop := e'.id = e.id ∧ e'.toPersisted = e.toPersisted

theorem Task.Covers.same {e e' : Entry W} (h : e.SameImage e') {t : Task W} (ht : t.Covers e) : t.Covers e' := by
  cases t with
  | write id file => exact ⟨ht.1.trans h.1.symm, by rw [h.2]; exact ht.2⟩
  | editApply p => exact Eq.trans ht h.1.symm
  | snapshotFile t => exact Eq.trans ht h.1.symm
  | _ => exact ht

/-- Live collectors have a path each. -/
def CollectorRegistry.Apart (path : String → String → P) (r : CollectorRegistry W) : Prop :=
  ∀ k ∈ r.keys, ∀ k' ∈ r.keys, path k.2.1.text k.2.2 = path k'.2.1.text k'.2.2 → k.1 = k'.1

namespace Sys

variable {env : CollectorEnv W Span} {s s' : Sys W P}

/-- What a section of such a run does. Each collector after it has the file
to write that it had before, and the section was none of what covered it; or
what the section leaves to do covers it; or the section applied an edit. -/
structure LockedCovered (env : CollectorEnv W Span) (s : Sys W P) (t : Task W)
    (res : CollectorRegistry W × List (Task W)) : Prop where
  keys : ∀ k ∈ s.reg.keys, k ∈ res.1.keys
  sound : ∀ t' ∈ res.2, t'.Sound res.1
  entries : ∀ e' ∈ res.1.entries,
    (∃ e ∈ s.reg.entries, e.SameImage e' ∧ ¬ t.Covers e) ∨ (∃ t' ∈ res.2, t'.Covers e') ∨
      ∃ p, t = .editApply p ∧ ∃ e ∈ s.reg.entries, e.id = p.id ∧ e' = edited env s.loss p e

theorem LockedCovered.refused {t : Task W} (ht : ∀ e, ¬ t.Covers e) : LockedCovered env s t (s.reg, []) :=
  ⟨fun _ hk => hk, by simp, fun e he => .inl ⟨e, he, ⟨rfl, rfl⟩, ht e⟩⟩

theorem locked_covered (env : CollectorEnv W Span) (hd : s.reg.Distinct) {t : Task W} (ht : t.Sound s.reg) :
    LockedCovered env s t (s.locked env t) := by
  cases t with
  | add owner domain metrics defn now =>
    simp only [locked]
    split
    · exact .refused fun _ h => h
    · rename_i r e hadd
      obtain ⟨hk, _, hid, howner, hname⟩ := keys_add hadd
      obtain ⟨_, _, _, hr⟩ := add_ok hadd
      refine ⟨fun k hin => ?_, fun t' ht' => ?_, fun e' he' => ?_⟩
      · rw [hk]
        exact List.mem_append_left _ hin
      · obtain rfl := List.mem_singleton.mp ht'
        refine ⟨owner, howner, ?_⟩
        rw [hk, hid, hname]
        exact List.mem_append_right _ List.mem_cons_self
      · rw [show CollectorRegistry.entries _ = _ from congrArg CollectorRegistry.entries hr] at he'
        rcases List.mem_append.mp he' with he' | he'
        · exact .inl ⟨e', he', ⟨rfl, rfl⟩, fun h => h⟩
        · obtain rfl := List.mem_singleton.mp he'
          exact .inr (.inl ⟨_, List.mem_cons_self, rfl, .refl _⟩)
  | editCheck owner name change newMetrics now =>
    simp only [locked]
    split
    · exact .refused fun _ h => h
    · rename_i p hp
      obtain ⟨e, hc⟩ := editCheck_ok hp
      obtain ⟨hmem, hnamed⟩ := find?_mem hc.found
      have howner : e.owner = p.owner := by rw [hc.ownerEq, (Entry.isNamed_iff.mp hnamed).1]
      have hkey : (p.id, p.owner, p.defn.name) ∈ s.reg.keys := by
        rw [hc.id, ← howner, hc.defName]
        exact key_mem hmem
      refine ⟨fun _ hk => hk, fun t' ht' => ?_, fun e' he' => .inl ⟨e', he', ⟨rfl, rfl⟩, fun h => h⟩⟩
      rcases List.mem_cons.mp ht' with rfl | ht'
      · refine ⟨p.owner, ?_, ?_⟩
        · rw [hc.file, ← howner]
          rfl
        · rw [hc.file]
          exact hkey
      · obtain rfl := List.mem_singleton.mp ht'
        exact hkey
  | editApply p =>
    obtain ⟨e0, he0, hid0, howner0, hname0⟩ := mem_keys.mp ht
    simp only [locked]
    split
    · rename_i hfail
      -- the collector is armed, so the edit is not refused
      unfold editApply at hfail
      split at hfail
      · rename_i hnone
        have := List.find?_eq_none.mp hnone e0 he0
        simp [Entry.isHeld, hid0, howner0] at this
      · simp at hfail
    · rename_i r out happly
      obtain ⟨e, he, hr⟩ := editApply_ok happly
      obtain ⟨hmem, hheld⟩ := find?_mem he
      have hid := (Entry.isHeld_iff.mp hheld).1
      have hkeys := keys_editApply happly fun o n hk => by
        obtain ⟨e1, he1, h1, _, h3⟩ := mem_keys.mp hk
        rw [← h3, ← hname0, hd.unique he1 he0 (h1.trans hid0.symm)]
      refine ⟨fun k hk => by rw [hkeys.1]; exact hk, by simp, fun e' he' => ?_⟩
      rw [show CollectorRegistry.entries _ = _ from congrArg CollectorRegistry.entries hr] at he'
      rcases hd.mem_modifyFirst he he' with rfl | ⟨he', hne⟩
      · exact .inr (.inr ⟨p, rfl, e, hmem, hid, rfl⟩)
      · exact .inl ⟨e', he', ⟨rfl, rfl⟩, fun h => hne (Eq.trans (Eq.symm h) hid.symm)⟩
  | snapshotTake owner req =>
    simp only [locked]
    split
    · exact .refused fun _ h => h
    · rename_i r t htake
      have hkeys := keys_snapshotTake htake
      obtain ⟨e, label, hist, he, _, htaken, hr⟩ := snapshotTake_ok htake
      have hid : t.id = e.id := by rw [htaken]
      refine ⟨fun k hk => by rw [hkeys.1]; exact hk, fun t' ht' => ?_, fun e' he' => ?_⟩
      · obtain rfl := List.mem_singleton.mp ht'
        refine ⟨e.owner, e.name, ?_⟩
        rw [hkeys.1, hid]
        exact key_mem (find?_mem he).1
      · rw [show CollectorRegistry.entries _ = _ from congrArg CollectorRegistry.entries hr] at he'
        rcases hd.mem_modifyFirst he he' with rfl | ⟨he', _⟩
        · exact .inr (.inl ⟨_, List.mem_cons_self, by simpa [Task.Covers] using hid⟩)
        · exact .inl ⟨e', he', ⟨rfl, rfl⟩, fun h => h⟩
  | snapshotFile t =>
    obtain ⟨o, n, hk⟩ := ht
    obtain ⟨e0, he0, hid0, _, _⟩ := mem_keys.mp hk
    obtain ⟨e, he⟩ : ∃ e, s.reg.entries.find? (fun e => e.id == t.id) = some e :=
      Option.isSome_iff_exists.mp (List.find?_isSome.mpr ⟨e0, he0, by simpa using hid0⟩)
    obtain ⟨hmem, hid⟩ := find?_mem he
    have hid : e.id = t.id := by simpa using hid
    have hfile : s.reg.snapshotFile t =
        ({ s.reg with entries := modifyFirst (fun e => e.id == t.id) (filed t.snap) s.reg.entries },
          some (filed t.snap e).toPersisted) := by
      unfold snapshotFile
      rw [he]
    have hkeys := keys_snapshotFile (r := s.reg) t
    rw [hfile] at hkeys
    simp only [locked, hfile]
    refine ⟨fun k hk => by rw [hkeys.1]; exact hk, fun t' ht' => ?_, fun e' he' => ?_⟩
    · obtain rfl := List.mem_singleton.mp ht'
      refine ⟨e.owner, rfl, ?_⟩
      rw [hkeys.1, ← hid]
      exact key_mem hmem
    · rcases hd.mem_modifyFirst he he' with rfl | ⟨he', hne⟩
      · exact .inr (.inl ⟨_, List.mem_cons_self, hid.symm, .refl _⟩)
      · exact .inl ⟨e', he', ⟨rfl, rfl⟩, fun h => hne (Eq.trans (Eq.symm h) hid.symm)⟩
  | reset owner name now =>
    simp only [locked]
    split
    · exact .refused fun _ h => h
    · rename_i r v hreset
      have hkeys := keys_reset hreset
      obtain ⟨e, he, hr⟩ := reset_ok hreset
      refine ⟨fun k hk => by rw [hkeys.1]; exact hk, by simp, fun e' he' => ?_⟩
      rw [show CollectorRegistry.entries _ = _ from congrArg CollectorRegistry.entries hr] at he'
      rcases hd.mem_modifyFirst he he' with rfl | ⟨he', _⟩
      · exact .inl ⟨e, (find?_mem he).1, ⟨rfl, rfl⟩, fun h => h⟩
      · exact .inl ⟨e', he', ⟨rfl, rfl⟩, fun h => h⟩
  | write id file =>
    refine ⟨fun _ hk => hk, by simpa [locked] using ht, fun e' he' => ?_⟩
    by_cases hcov : (Task.write id file).Covers e'
    · exact .inr (.inl ⟨_, List.mem_cons_self, hcov⟩)
    · exact .inl ⟨e', he', ⟨rfl, rfl⟩, hcov⟩
  | remove _ _ => exact ht.elim
  | lifecycle _ _ => exact ht.elim
  | rewrite _ _ _ _ => exact ht.elim
  | delete _ _ _ => exact ht.elim

variable {path : String → String → P}

theorem apart_of_eq {r r' : CollectorRegistry W} (h : r.Apart path) (hk : r'.keys = r.keys) : r'.Apart path := by
  unfold Apart
  rw [hk]
  exact h

/-- A section keeps the paths apart when it arms no collector on another's. -/
theorem locked_apart (env : CollectorEnv W Span) (h : s.reg.Apart path) {t : Task W}
    (ht : t.Sound s.reg) (hn : t.Names s.reg)
    (hgood : ∀ owner domain metrics defn now, t = .add owner domain metrics defn now → ∀ e ∈ s.reg.entries,
      path e.owner.text e.name = path owner.text defn.name → e.owner = owner ∧ e.name = defn.name) :
    (s.locked env t).1.Apart path := by
  cases t with
  | add owner domain metrics defn now =>
    simp only [locked]
    split
    · exact h
    · rename_i r e hadd
      obtain ⟨hk, _⟩ := keys_add hadd
      obtain ⟨hnew, _⟩ := add_ok hadd
      have hother : ∀ k ∈ s.reg.keys, path k.2.1.text k.2.2 ≠ path owner.text defn.name := by
        rintro ⟨id, o, n⟩ hin hp
        obtain ⟨e1, he1, rfl, rfl, rfl⟩ := mem_keys.mp hin
        exact hnew e1 he1 (hgood owner domain metrics defn now rfl e1 he1 hp)
      intro k hin k' hin' hp
      show k.1 = k'.1
      rw [hk, List.mem_append, List.mem_singleton] at hin hin'
      rcases hin with hin | rfl
      · rcases hin' with hin' | rfl
        · exact h k hin k' hin' hp
        · exact absurd hp (hother k hin)
      · rcases hin' with hin' | rfl
        · exact absurd hp.symm (hother k' hin')
        · rfl
  | editCheck owner name change newMetrics now =>
    simp only [locked]
    split <;> exact h
  | editApply p =>
    simp only [locked]
    split
    · exact h
    · rename_i r out happly
      exact apart_of_eq h (keys_editApply happly hn.2).1
  | snapshotTake owner req =>
    simp only [locked]
    split
    · exact h
    · rename_i r t htake
      exact apart_of_eq h (keys_snapshotTake htake).1
  | snapshotFile t =>
    have hk := (keys_snapshotFile (r := s.reg) t).1
    simp only [locked]
    split <;> rename_i hf <;> rw [hf] at hk <;> exact apart_of_eq h hk
  | reset owner name now =>
    simp only [locked]
    split
    · exact h
    · rename_i r v hreset
      exact apart_of_eq h (keys_reset hreset).1
  | write id file => exact h
  | remove _ _ => exact ht.elim
  | lifecycle _ _ => exact ht.elim
  | rewrite _ _ _ _ => exact ht.elim
  | delete _ _ _ => exact ht.elim

/-- A job some call has, and that the call which moves on keeps. -/
theorem somewhere_kept {i : ℕ} {c : Call W P} (c' : Call W P) {C : Task W → Prop} (hi : s.calls[i]? = some c)
    (hkept : ∀ t ∈ c.tasks, C t → t ∈ c'.tasks) (h : ∃ c ∈ s.calls, ∃ t ∈ c.tasks, C t) :
    ∃ c ∈ s.calls.set i c', ∃ t ∈ c.tasks, C t := by
  rw [somewhere_iff hi] at h
  rw [somewhere_set hi]
  refine h.imp_left ?_
  intro ⟨t, ht, hcov⟩
  exact ⟨t, hkept t ht hcov, hcov⟩

/-! ### Along a run -/

section Run

variable [DecidableEq W]

/-- The file of a collector describes the image. -/
def onDisk (path : String → String → P) (disk : P → Option (DiskFile W)) (image : PersistedCollector W) : Bool :=
  (disk (path image.owner image.name)).any fun f => f.file.Agrees image

/-- The collector's file describes it, or a call in flight has work for it. -/
def Covered (path : String → String → P) (s : Sys W P) (e : Entry W) : Prop :=
  onDisk path s.disk e.toPersisted = true ∨ ∃ c ∈ s.calls, ∃ t ∈ c.tasks, t.Covers e

/-- What holds in every state of such a run. -/
structure Durable (path : String → String → P) (s : Sys W P) : Prop where
  known : Known s
  apart : s.reg.Apart path
  sound : ∀ c ∈ s.calls, ∀ t ∈ c.tasks, t.Sound s.reg
  covered : ∀ e ∈ s.reg.entries, s.Covered path e

theorem onDisk_iff {disk : P → Option (DiskFile W)} {image : PersistedCollector W} :
    onDisk path disk image = true ↔ ∃ f, disk (path image.owner image.name) = some f ∧ f.file.Agrees image := by
  simp [onDisk, Option.any_eq_true]

/-- A step that leaves registry, directory and jobs as they are. -/
theorem Durable.quiet (h : Durable path s) (hknown : Known s') {i : ℕ} {c c' : Call W P} (hi : s.calls[i]? = some c)
    (hreg : s'.reg = s.reg) (hdisk : s'.disk = s.disk) (hcalls : s'.calls = s.calls.set i c')
    (htasks : c'.tasks = c.tasks) : Durable path s' := by
  refine ⟨hknown, by rw [hreg]; exact h.apart, ?_, fun e he => ?_⟩
  · rw [hcalls, hreg]
    refine forall_set h.sound ?_
    rw [htasks]
    exact h.sound c (List.mem_of_getElem? hi)
  · rw [hreg] at he
    unfold Covered
    rw [hdisk, hcalls]
    exact (h.covered e he).imp_right (somewhere_kept _ hi fun t ht _ => htasks ▸ ht)

/-- A section, which arms a collector on a path of its own, and applies an edit
whose file is on disk or where another call has work for the collector. -/
theorem Durable.locked (h : Durable path s) (hknown : Known s') {i : ℕ} {t : Task W} {rest : List (Task W)} {g : Hold P}
    (hi : s.calls[i]? = some ⟨t :: rest, g⟩) (hreg : s'.reg = (s.locked env t).1) (hdisk : s'.disk = s.disk)
    (hcalls : s'.calls = s.calls.set i ⟨(s.locked env t).2 ++ rest, g⟩)
    (hadd : ∀ owner domain metrics defn now, t = .add owner domain metrics defn now → ∀ e ∈ s.reg.entries,
      path e.owner.text e.name = path owner.text defn.name → e.owner = owner ∧ e.name = defn.name)
    (happly : ∀ p, t = .editApply p → ∀ e ∈ s.reg.entries, e.id = p.id →
      onDisk path s.disk (e.persistedWith p.defn p.targetDomain) = true ∨
        Elsewhere s.calls i fun c => ∃ t ∈ c.tasks, t.Covers (edited env s.loss p e)) : Durable path s' := by
  have hmem := List.mem_of_getElem? hi
  have hsound := h.sound _ hmem t List.mem_cons_self
  have hl := locked_covered env h.known.distinct hsound
  refine ⟨hknown, ?_, ?_, fun e' he' => ?_⟩
  · rw [hreg]
    exact locked_apart env h.apart hsound (h.known.names _ hmem t List.mem_cons_self) hadd
  · rw [hcalls, hreg]
    refine forall_set (fun c hc t' ht' => (h.sound c hc t' ht').mono hl.keys) fun t' ht' => ?_
    rcases List.mem_append.mp ht' with ht' | ht'
    · exact hl.sound t' ht'
    · exact (h.sound _ hmem t' (List.mem_cons_of_mem _ ht')).mono hl.keys
  · rw [hreg] at he'
    unfold Covered
    rw [hdisk, hcalls]
    rcases hl.entries e' he' with ⟨e, he, hsame, hnot⟩ | ⟨t', ht', hcov⟩ | ⟨p, rfl, e, he, hid, rfl⟩
    · refine (h.covered e he).imp (fun hd => by rw [hsame.2]; exact hd) fun hs => ?_
      obtain ⟨c, hc, t', ht', hcov⟩ := somewhere_kept ⟨(s.locked env t).2 ++ rest, g⟩ hi (fun t' ht' hcov => by
        rcases List.mem_cons.mp ht' with rfl | ht'
        · exact absurd hcov hnot
        · exact List.mem_append_right _ ht') hs
      exact ⟨c, hc, t', ht', hcov.same hsame⟩
    · exact .inr ((somewhere_set hi).mpr (.inl ⟨t', List.mem_append_left _ ht', hcov⟩))
    · -- the edit's file is on disk, or another call goes on
      rcases happly p rfl e he hid with hon | helse
      · obtain ⟨f, hf, hagree⟩ := onDisk_iff.mp hon
        refine .inl (onDisk_iff.mpr ⟨f, ?_, agrees_edited hagree⟩)
        rw [← hf]
        simp [Entry.toPersisted, Entry.persistedWith]
      · exact .inr ((somewhere_set hi).mpr (.inr helse))

/-- A save, before its edit is applied, or of a file that describes the
collector, or where another call has work for it. -/
theorem Durable.save [DecidableEq P] (h : Durable path s) (hknown : Known s') {i l id : ℕ}
    {file : PersistedCollector W} {rest : List (Task W)} {g : Hold P}
    (hi : s.calls[i]? = some ⟨.write id file :: rest, g⟩) (hreg : s'.reg = s.reg)
    (hdisk : s'.disk = Function.update s.disk (path file.owner file.name) (some ⟨id, file⟩))
    (hcalls : s'.calls = s.calls.set i ⟨rest, .leaving l⟩)
    (hgood : (∃ p, .editApply p ∈ rest ∧ p.id = id) ∨ ∀ e ∈ s.reg.entries, e.id = id → file.Agrees e.toPersisted ∨
      Elsewhere s.calls i fun c => ∃ t ∈ c.tasks, t.Covers e) : Durable path s' := by
  have hmem := List.mem_of_getElem? hi
  have hrest : ∀ t ∈ rest, t ∈ Task.write id file :: rest := fun t ht => List.mem_cons_of_mem _ ht
  refine ⟨hknown, by rw [hreg]; exact h.apart, ?_, fun e he => ?_⟩
  · rw [hcalls, hreg]
    exact forall_set h.sound fun t ht => h.sound _ hmem t (hrest t ht)
  rw [hreg] at he
  unfold Covered
  rw [hdisk, hcalls]
  obtain ⟨o, ho, hk⟩ := h.sound _ hmem _ List.mem_cons_self
  by_cases hid : e.id = id
  · -- the collector the file was prepared for
    have hkey : path e.owner.text e.name = path file.owner file.name := by
      obtain ⟨e1, he1, h1, h2, h3⟩ := mem_keys.mp hk
      rw [h.known.distinct.unique he he1 (hid.trans h1.symm), h2, h3, ho]
    by_cases hagree : file.Agrees e.toPersisted
    · refine .inl (onDisk_iff.mpr ⟨⟨id, file⟩, ?_, hagree⟩)
      rw [show path e.toPersisted.owner e.toPersisted.name = _ from hkey, Function.update_self]
    · right
      rcases hgood with ⟨p, hp, hpid⟩ | hsave
      · exact (somewhere_set hi).mpr (.inl ⟨_, hp, hpid.trans hid.symm⟩)
      · exact (somewhere_set hi).mpr (.inr ((hsave e he hid).resolve_left hagree))
  · -- another collector's file stays
    have hne : path e.owner.text e.name ≠ path file.owner file.name := by
      intro hp
      rw [ho] at hp
      exact hid (h.apart _ (key_mem he) _ hk hp)
    refine (h.covered e he).imp (fun hon => ?_) fun hs => ?_
    · obtain ⟨f, hf, hagree⟩ := onDisk_iff.mp hon
      refine onDisk_iff.mpr ⟨f, ?_, hagree⟩
      rw [show path e.toPersisted.owner e.toPersisted.name = path e.owner.text e.name from rfl,
        Function.update_of_ne hne]
      exact hf
    · refine somewhere_kept _ hi (fun t ht hcov => ?_) hs
      rcases List.mem_cons.mp ht with rfl | ht
      · exact absurd hcov.1.symm hid
      · exact ht

end Run

end Sys

end Logmon
