/-
# Writing a file at once

`atomic_write` of `daemon/persistence.rs`, one call on the file system to a
step, each of which may fail: the contents go to a scratch file beside the
target, which is synced, renamed over the target, and then the directory is
synced, if it can be. `x` is what is written. What a write under way has put in
the scratch file is left out: nothing reads it.

However far a write got, and whatever failed, a loss of power leaves the target
what it may have been left before, or `x`, and every other file what it may
have been left before (`atomic_write_whole`).

Key definitions: `tempFor`, `AtomicWrite`, `AtomicWrite.step`,
`AtomicWrite.Filling`.
Key theorems: `AtomicWrite.step_spec`, `atomic_write_whole`.
-/
import Logmon.Collector.FileNames
import Logmon.Lib.Reach
import Logmon.Lib.Volume

namespace Logmon

open Lib

/-- `TEMP_SUFFIX`. -/
def tempSuffix : FileName := ascii ".tmp-write"

/-- The scratch file beside a target. -/
def tempFor (path : FileName) : FileName := path ++ tempSuffix

def isTemp (n : FileName) : Bool := tempSuffix.isSuffixOf n

theorem isTemp_tempFor (path : FileName) : isTemp (tempFor path) = true :=
  List.isSuffixOf_iff_suffix.mpr (List.suffix_append _ _)

variable {F : Type}

/-- What the system answers an operation: an error where it failed, with what
a write left behind. -/
structure FileAnswer (F : Type) where
  fails : Option String
  torn : F

/-- What a write does next. -/
inductive AtomicWrite
  | create
  | write (node : ℕ)
  | sync (node : ℕ)
  | rename
  | syncDir
  | done (res : Except String Unit)

namespace AtomicWrite

/-- One operation; `blank` is an empty file. Whether the directory could be
synced is not asked. -/
def step (path : FileName) (blank x : F) (ans : FileAnswer F) (v : Volume FileName F) :
    AtomicWrite → Option (Volume FileName F × AtomicWrite)
  | .create =>
    match ans.fails with
    | some e => some (v, .done (.error e))
    | none => some (v.create (tempFor path) blank, .write (v.nodeFor (tempFor path)))
  | .write i =>
    match ans.fails with
    | some e => some (v.write i ans.torn, .done (.error e))
    | none => some (v.write i x, .sync i)
  | .sync i =>
    match ans.fails with
    | some e => some (v, .done (.error e))
    | none => some (v.sync i, .rename)
  | .rename =>
    match ans.fails with
    | some e => some (v, .done (.error e))
    | none => some (v.rename (tempFor path) path, .syncDir)
  | .syncDir => some (if ans.fails.isNone then v.syncDir else v, .done (.ok ()))
  | .done _ => none

/-- The target is not replaced yet. -/
def unplaced : AtomicWrite → Bool
  | .syncDir | .done _ => false
  | _ => true

/-- What a write has brought about so far. -/
def Filling (path : FileName) (x : F) (v : Volume FileName F) : AtomicWrite → Prop
  | .create => True
  | .write i => v.dir.get? (tempFor path) = some i
  | .sync i => v.dir.get? (tempFor path) = some i ∧ v.data i = x
  | .rename => ∃ i, v.dir.get? (tempFor path) = some i ∧ v.data i = x ∧ v.synced i = true
  | .syncDir | .done (.ok ()) => v.now isTemp path = some x
  | .done (.error _) => True

/-- What one operation does to the files that are no scratch files. -/
inductive Moves (path : FileName) (x : F) (fails : Option String) (v v' : Volume FileName F) :
    AtomicWrite → AtomicWrite → Prop
  | fills {w w' : AtomicWrite} : w.unplaced = true → w'.unplaced = true → v'.now isTemp = v.now isTemp →
      (∀ r ∈ v'.may isTemp, r ∈ v.may isTemp) → Moves path x fails v v' w w'
  | fails {w : AtomicWrite} (e : String) : w.unplaced = true → v'.now isTemp = v.now isTemp →
      (∀ r ∈ v'.may isTemp, r ∈ v.may isTemp) → Moves path x fails v v' w (.done (.error e))
  | places : v'.now isTemp = Function.update (v.now isTemp) path (some x) →
      v'.may isTemp = v'.now isTemp :: v.may isTemp → Moves path x fails v v' .rename .syncDir
  | settles : fails = none → v'.now isTemp = v.now isTemp → v'.may isTemp = [v.now isTemp] →
      Moves path x fails v v' .syncDir (.done (.ok ()))
  | leaves : fails.isSome = true → v' = v → Moves path x fails v v' .syncDir (.done (.ok ()))

variable {path : FileName} {blank x : F} {ans : FileAnswer F} {v v' : Volume FileName F} {w w' : AtomicWrite}

/-- **One operation of a write**, on a directory whose names are bound as
writes bind them. -/
theorem step_spec (hs : v.Sound isTemp) (hp : isTemp path = false) (hf : w.Filling path x v)
    (h : w.step path blank x ans v = some (v', w')) :
    v'.Sound isTemp ∧ w'.Filling path x v' ∧ Moves path x ans.fails v v' w w' := by
  have ht := isTemp_tempFor path
  cases w with
  | create =>
    simp only [step] at h
    split at h
    · cases h
      exact ⟨hs, trivial, .fails _ rfl rfl fun _ hr => hr⟩
    · cases h
      obtain ⟨hs', hnow, hmay, hbound⟩ := hs.create ht blank
      exact ⟨hs', hbound, .fills rfl rfl hnow hmay⟩
  | write i =>
    simp only [step] at h
    split at h
    · cases h
      obtain ⟨hs', hnow, hmay⟩ := hs.write ht hf ans.torn
      exact ⟨hs', trivial, .fails _ rfl hnow fun r hr => by rwa [hmay] at hr⟩
    · cases h
      obtain ⟨hs', hnow, hmay⟩ := hs.write ht hf x
      exact ⟨hs', ⟨hf, Function.update_self _ _ _⟩, .fills rfl rfl hnow fun r hr => by rwa [hmay] at hr⟩
  | sync i =>
    simp only [step] at h
    split at h
    · cases h
      exact ⟨hs, trivial, .fails _ rfl rfl fun _ hr => hr⟩
    · cases h
      exact ⟨hs.sync i, ⟨i, hf.1, hf.2, Function.update_self _ _ _⟩, .fills rfl rfl rfl fun _ hr => hr⟩
  | rename =>
    simp only [step] at h
    split at h
    · cases h
      exact ⟨hs, trivial, .fails _ rfl rfl fun _ hr => hr⟩
    · cases h
      obtain ⟨i, hi, rfl, hsynced⟩ := hf
      obtain ⟨hs', hnow, hmay⟩ := hs.rename ht hp hi hsynced
      refine ⟨hs', ?_, .places hnow hmay⟩
      show (v.rename (tempFor path) path).now isTemp path = _
      rw [hnow, Function.update_self]
  | syncDir =>
    simp only [step, Option.some.injEq, Prod.mk.injEq] at h
    obtain ⟨rfl, rfl⟩ := h
    cases hfails : ans.fails with
    | none =>
      obtain ⟨hs', hmay⟩ := hs.syncDir
      exact ⟨hs', hf, .settles rfl rfl hmay⟩
    | some e => exact ⟨hs, hf, .leaves rfl rfl⟩
  | done => cases h

/-! ### A whole write -/

/-- A write and the directory it is at work in. -/
def next (path : FileName) (blank x : F) (s : Volume FileName F × AtomicWrite) (ans : FileAnswer F) :
    Option (Volume FileName F × AtomicWrite) := s.2.step path blank x ans s.1

/-- Where a write stands that began at `v`, its last operation answered so. -/
structure Progress (path : FileName) (x : F) (v : Volume FileName F) (last : Option (FileAnswer F))
    (s : Volume FileName F × AtomicWrite) : Prop where
  sound : s.1.Sound isTemp
  filling : s.2.Filling path x s.1
  before : s.2.unplaced = true ∨ (∃ e, s.2 = .done (.error e)) →
    s.1.now isTemp = v.now isTemp ∧ ∀ r ∈ s.1.may isTemp, r ∈ v.may isTemp
  placed : s.2 = .syncDir ∨ s.2 = .done (.ok ()) → s.1.now isTemp = Function.update (v.now isTemp) path (some x) ∧
    ∀ r ∈ s.1.may isTemp, r = s.1.now isTemp ∨ r ∈ v.may isTemp
  settled : s.2 = .done (.ok ()) → (∃ ans ∈ last, ans.fails = none) → s.1.may isTemp = [s.1.now isTemp]

variable {last : Option (FileAnswer F)} {s s' : Volume FileName F × AtomicWrite}

theorem Progress.next (h : Progress path x v last s) (hp : isTemp path = false) (hstep : next path blank x s ans = some s') :
    Progress path x v (some ans) s' := by
  obtain ⟨v1, w1⟩ := s
  obtain ⟨v2, w2⟩ := s'
  obtain ⟨hs, hf, hmoves⟩ := step_spec h.sound hp h.filling hstep
  cases hmoves with
  | fills hw hw' hnow hmay =>
    have hb := h.before (.inl hw)
    refine ⟨hs, hf, fun _ => ⟨hnow.trans hb.1, fun r hr => hb.2 r (hmay r hr)⟩, ?_, ?_⟩
    · rintro (rfl | rfl) <;> cases hw'
    · rintro rfl
      cases hw'
  | fails e hw hnow hmay =>
    have hb := h.before (.inl hw)
    exact ⟨hs, hf, fun _ => ⟨hnow.trans hb.1, fun r hr => hb.2 r (hmay r hr)⟩, by simp, by simp⟩
  | places hnow hmay =>
    have hb := h.before (.inl rfl)
    refine ⟨hs, hf, by simp [unplaced], fun _ => ⟨by rw [hnow, hb.1], fun r hr => ?_⟩, by simp⟩
    rw [hmay] at hr
    exact (List.mem_cons.mp hr).imp_right (hb.2 r)
  | settles hok hnow hmay =>
    have hb := h.placed (.inl rfl)
    refine ⟨hs, hf, by simp [unplaced], fun _ => ⟨hnow.trans hb.1, fun r hr => .inl ?_⟩, fun _ _ => by rw [hmay, hnow]⟩
    rw [hmay, List.mem_singleton] at hr
    exact hr.trans hnow.symm
  | leaves hfails hv =>
    subst hv
    refine ⟨hs, hf, by simp [unplaced], fun _ => h.placed (.inl rfl), fun _ => ?_⟩
    rintro ⟨a, ha, hok⟩
    obtain rfl := Option.some.inj ha
    rw [hok] at hfails
    cases hfails

theorem Progress.run (hs : v.Sound isTemp) (hp : isTemp path = false) {answers : List (FileAnswer F)}
    (h : runActs (AtomicWrite.next path blank x) (v, .create) answers = some s) :
    Progress path x v answers.getLast? s := by
  induction answers using List.reverseRecOn generalizing s with
  | nil =>
    obtain rfl := Option.some.inj h
    exact ⟨hs, trivial, fun _ => ⟨rfl, fun _ hr => hr⟩, by simp, by simp⟩
  | append_singleton answers ans ih =>
    rw [runActs_append] at h
    obtain ⟨s1, h1, h2⟩ := Option.bind_eq_some_iff.mp h
    have hstep : AtomicWrite.next path blank x s1 ans = some s := by
      unfold runActs at h2
      split at h2
      · cases h2
      · rename_i s2 hs2
        rw [hs2]
        exact h2
    rw [List.getLast?_concat]
    exact (ih h1).next hp hstep

/-- **A write is whole or not there**, wherever the power goes and whatever
failed: the files are left as they may have been left before it, or as they
were but for the target, which reads `x`. A write that failed has changed
nothing. One that succeeded has replaced the target, and for good if its last
answer, the directory's, was no error. Either way the directory is one that the
next write can be made in, now or after the power is back. -/
theorem atomic_write_whole (hs : v.Sound isTemp) (hp : isTemp path = false) {answers : List (FileAnswer F)}
    (h : runActs (AtomicWrite.next path blank x) (v, .create) answers = some (v', w)) :
    (∀ k junk, (v'.outage k junk).now isTemp ∈ v.may isTemp ∨
      (v'.outage k junk).now isTemp = Function.update (v.now isTemp) path (some x)) ∧
    (∀ e, w = .done (.error e) → v'.now isTemp = v.now isTemp ∧
      ∀ k junk, (v'.outage k junk).now isTemp ∈ v.may isTemp) ∧
    (w = .done (.ok ()) → v'.now isTemp = Function.update (v.now isTemp) path (some x) ∧
      ((∃ ans ∈ answers.getLast?, ans.fails = none) →
        ∀ k junk, (v'.outage k junk).now isTemp = Function.update (v.now isTemp) path (some x))) ∧
    v'.Sound isTemp ∧ ∀ k junk, (v'.outage k junk).Sound isTemp := by
  have hrun := Progress.run hs hp h
  have hout : ∀ k junk, (v'.outage k junk).now isTemp ∈ v'.may isTemp := fun k junk => (Volume.now_outage hrun.sound k junk).1
  refine ⟨fun k junk => ?_, fun e he => ?_, fun hok => ⟨(hrun.placed (.inr hok)).1, fun hlast k junk => ?_⟩,
    hrun.sound, hrun.sound.outage⟩
  · cases w with
    | syncDir =>
      obtain ⟨hnow, hmay⟩ := hrun.placed (.inl rfl)
      exact (hmay _ (hout k junk)).symm.imp_right fun hr => hr.trans hnow
    | done res =>
      cases res with
      | ok =>
        obtain ⟨hnow, hmay⟩ := hrun.placed (.inr rfl)
        exact (hmay _ (hout k junk)).symm.imp_right fun hr => hr.trans hnow
      | error e => exact .inl ((hrun.before (.inr ⟨e, rfl⟩)).2 _ (hout k junk))
    | _ => exact .inl ((hrun.before (.inl rfl)).2 _ (hout k junk))
  · obtain ⟨hnow, hmay⟩ := hrun.before (.inr ⟨e, he⟩)
    exact ⟨hnow, fun k junk => hmay _ (hout k junk)⟩
  · have hr := hout k junk
    rw [hrun.settled hok hlast, List.mem_singleton] at hr
    exact hr.trans (hrun.placed (.inr hok)).1

/-- A file that was written, and a write over it that fails as it renames. -/
theorem atomic_write_whole_kept : ∃ v v' : Volume FileName ℕ,
    runActs (AtomicWrite.next (ascii "state.json") 0 7) (Volume.empty 0, .create) (List.replicate 5 ⟨none, 0⟩) =
      some (v, .done (.ok ())) ∧
    runActs (AtomicWrite.next (ascii "state.json") 0 8) (v, .create)
      (List.replicate 3 ⟨none, 0⟩ ++ [⟨some "No space left on device (os error 28)", 0⟩]) =
      some (v', .done (.error "No space left on device (os error 28)")) ∧
    ∀ k junk, (v'.outage k junk).now isTemp (ascii "state.json") = some 7 := by
  obtain ⟨v, hv⟩ : ∃ v : Volume FileName ℕ,
      runActs (AtomicWrite.next (ascii "state.json") 0 7) (Volume.empty 0, .create) (List.replicate 5 ⟨none, 0⟩) =
        some (v, .done (.ok ())) := ⟨_, rfl⟩
  have hfirst := Progress.run (Volume.sound_empty 0) (by decide) hv
  have hnow := (hfirst.placed (.inr rfl)).1
  have hmay := hfirst.settled rfl ⟨⟨none, 0⟩, rfl, rfl⟩
  obtain ⟨v', hv'⟩ : ∃ v' : Volume FileName ℕ, runActs (AtomicWrite.next (ascii "state.json") 0 8) (v, .create)
      (List.replicate 3 ⟨none, 0⟩ ++ [⟨some "No space left on device (os error 28)", 0⟩]) =
        some (v', .done (.error "No space left on device (os error 28)")) := ⟨_, rfl⟩
  refine ⟨v, v', hv, hv', fun k junk => ?_⟩
  have hkept := ((atomic_write_whole hfirst.sound (by decide) hv').2.1 _ rfl).2 k junk
  rw [hmay, List.mem_singleton] at hkept
  rw [hkept, hnow, Function.update_self]

end AtomicWrite
end Logmon
