/-
# What a section makes of an entry

Every locked section of every call, seen from one entry of the registry after
it: the entry was there before with the same definition and pin, its window
the same or begun afresh; or it was just armed; or an edit was just applied to
it. What is said of windows, definitions and pins along a run is derived from
this one case distinction.

Key definitions: `Sys.Became`.
Key theorems: `Sys.locked_became`, `Sys.ingestSpan_kept`.
-/
import Logmon.Collector.Keys

namespace Logmon

open Lib CollectorRegistry

variable {W Span P : Type}

namespace Sys

/-- Where an entry comes from, after the section `t`. -/
inductive Became (env : CollectorEnv W Span) (s : Sys W P) (t : Task W) (e' : Entry W) : Prop
  | kept (e : Entry W) (mem : e ∈ s.reg.entries) (id : e'.id = e.id)
    (defn : e'.collector.defn = e.collector.defn) (domain : e'.domain = e.domain)
    (window : e'.collector.window = e.collector.window ∨ e'.collector.window = env.fresh e.collector.defn)
    (other : ∀ p a, t = .editApply p → s.reg.entries.find? (Entry.isHeld p.id p.owner) = some a → e.id ≠ a.id)
  | armed (id : e'.id = s.reg.nextId) (window : e'.collector.window = env.fresh e'.collector.defn)
  | edited (p : PendingEdit W) (a : Entry W) (task : t = .editApply p)
    (found : s.reg.entries.find? (Entry.isHeld p.id p.owner) = some a)
    (eq : e' = CollectorRegistry.edited env s.loss p a)

variable {env : CollectorEnv W Span} {s : Sys W P} {t : Task W} {e' : Entry W}

/-- An entry a section does not touch. -/
theorem Became.same (ht : ∀ p, t ≠ .editApply p) (he : e' ∈ s.reg.entries) : Became env s t e' :=
  .kept e' he rfl rfl rfl (.inl rfl) fun p _ h => absurd h (ht p)

/-- A section that replaces one entry by one of the same definition and
pin. -/
theorem Became.modified (hd : s.reg.Distinct) (ht : ∀ p, t ≠ .editApply p) {q : Entry W → Bool}
    {f : Entry W → Entry W} {a : Entry W} (ha : s.reg.entries.find? q = some a) (hid : (f a).id = a.id)
    (hdef : (f a).collector.defn = a.collector.defn) (hdom : (f a).domain = a.domain)
    (hwin : (f a).collector.window = a.collector.window ∨ (f a).collector.window = env.fresh a.collector.defn)
    (he : e' ∈ modifyFirst q f s.reg.entries) : Became env s t e' := by
  rcases hd.mem_modifyFirst ha he with rfl | ⟨he, _⟩
  · exact .kept a (List.mem_of_find?_eq_some ha) hid hdef hdom hwin fun p _ h => absurd h (ht p)
  · exact .same ht he

theorem takenFrom_window (env : CollectorEnv W Span) (loss : ℕ → TraceIngestLoss) (req : SnapshotRequest)
    (h : History W) (e : Entry W) :
    (takenFrom env loss req h e).collector.window = e.collector.window ∨
      (takenFrom env loss req h e).collector.window = env.fresh e.collector.defn := by
  unfold takenFrom
  split
  · exact .inr rfl
  · exact .inl rfl

/-- **What a section makes of an entry.** -/
theorem locked_became (hd : s.reg.Distinct) (he : e' ∈ (s.locked env t).1.entries) : Became env s t e' := by
  cases t with
  | add owner domain metrics defn now =>
    simp only [locked] at he
    split at he
    · exact .same (fun _ h => by cases h) he
    · rename_i r e hadd
      obtain ⟨_, _, rfl, rfl⟩ := add_ok hadd
      rcases List.mem_append.mp he with he | he
      · exact .same (fun _ h => by cases h) he
      · obtain rfl := List.mem_singleton.mp he
        exact .armed rfl rfl
  | editCheck owner name change newMetrics now =>
    simp only [locked] at he
    split at he <;> exact .same (fun _ h => by cases h) he
  | editApply p =>
    simp only [locked] at he
    split at he
    · rename_i err happly
      refine .kept e' he rfl rfl rfl (.inl rfl) fun p' a hp ha => ?_
      obtain rfl := Task.editApply.inj hp
      simp [CollectorRegistry.editApply, ha] at happly
    · rename_i r out happly
      obtain ⟨a, ha, rfl⟩ := editApply_ok happly
      rcases hd.mem_modifyFirst ha he with rfl | ⟨he, hne⟩
      · exact .edited p a rfl ha rfl
      · refine .kept e' he rfl rfl rfl (.inl rfl) fun p' a' hp ha' => ?_
        obtain rfl := Task.editApply.inj hp
        obtain rfl := Option.some.inj (ha.symm.trans ha')
        exact hne
  | snapshotTake owner req =>
    simp only [locked] at he
    split at he
    · exact .same (fun _ h => by cases h) he
    · rename_i r t htake
      obtain ⟨a, _, h, ha, _, _, rfl⟩ := snapshotTake_ok htake
      exact .modified hd (fun _ h => by cases h) ha (by simp) (by simp) (by simp) (takenFrom_window env s.loss req h a) he
  | snapshotFile t =>
    have hfile : e' ∈ (s.reg.snapshotFile t).1.entries := by
      simp only [locked] at he
      split at he <;> rename_i hf <;> rw [hf] <;> exact he
    unfold CollectorRegistry.snapshotFile at hfile
    split at hfile
    · exact .same (fun _ h => by cases h) hfile
    · rename_i a ha
      exact .modified hd (fun _ h => by cases h) ha rfl rfl rfl (.inl rfl) hfile
  | reset owner name now =>
    simp only [locked] at he
    split at he
    · exact .same (fun _ h => by cases h) he
    · rename_i r v hr
      obtain ⟨a, ha, rfl⟩ := reset_ok hr
      exact .modified hd (fun _ h => by cases h) ha rfl rfl rfl (.inr rfl) he
  | remove owner name =>
    simp only [locked] at he
    split at he
    · exact .same (fun _ h => by cases h) he
    · rename_i r hr
      obtain rfl := remove_ok hr
      exact .same (fun _ h => by cases h) (List.mem_filter.mp he).1
  | lifecycle changes pending =>
    cases changes with
    | nil => exact .same (fun _ h => by cases h) he
    | cons c cs =>
      cases c with
      | moveOwner old new =>
        simp only [locked, change, moveOwner] at he
        split at he
        · exact .same (fun _ h => by cases h) he
        · obtain ⟨e, hmem, rfl⟩ := List.mem_map.mp he
          refine .kept e hmem ?_ ?_ ?_ (.inl ?_) fun _ _ h => by cases h
          all_goals split <;> rfl
      | detachSession owner => exact .same (fun _ h => by cases h) (List.mem_filter.mp he).1
  | rewrite old new name since =>
    simp only [locked] at he
    split at he <;> exact .same (fun _ h => by cases h) he
  | write id file => exact .same (fun _ h => by cases h) he
  | delete owner name since => exact .same (fun _ h => by cases h) he

/-- A span moves windows only. -/
theorem ingestSpan_kept {r : CollectorRegistry W} {d : DomainId} {sp : Span} (he : e' ∈ (r.ingestSpan env d sp).entries) :
    ∃ e ∈ r.entries, e'.id = e.id ∧ e'.collector.defn = e.collector.defn ∧ e'.domain = e.domain := by
  obtain ⟨e, hmem, rfl⟩ := List.mem_map.mp he
  refine ⟨e, hmem, ?_⟩
  split <;> exact ⟨rfl, rfl, rfl⟩

end Sys

end Logmon
