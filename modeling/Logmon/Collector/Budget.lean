/-
# The daemon-wide sample reservation

`add` and a structural `edit` check, under the registry's lock, that what they
ask for fits beside what the other collectors reserve. `add` arms under that
same lock. An edit gives the lock up to write its file and is applied under a
second one, with nothing checked again: whatever was armed or edited in
between is not counted, and the definition it writes back, reservation
included, is the one it read. Two edits that overlap take the daemon past its
reservation (`reservation_exceeded`). The reservation holds along every run in
which an edit is applied only while the others reserve no more than they did
at its check (`reservation_kept`).

Key definitions: `Task.Checked`, `Sys.undisturbed`.
Key theorems: `Sys.Budgeted.step`, `reservation_kept`, `reservation_exceeded`.
-/
import Logmon.Collector.Calls
import Logmon.Lib.Slot
import Mathlib.Algebra.Order.BigOperators.Group.List
import Mathlib.Algebra.Order.Group.Nat

namespace Logmon

open Lib CollectorRegistry

variable {W Span P : Type}

/-! ### What the sections do to the reservation -/

namespace CollectorRegistry

variable {env : CollectorEnv W Span} {loss : ℕ → TraceIngestLoss} {r r' : CollectorRegistry W}
  {owner : SessionName} {name : String}

theorem reservedBy_filter_le (p : Entry W → Bool) (es : List (Entry W)) : reservedBy (es.filter p) ≤ reservedBy es :=
  (List.filter_sublist.map _).sum_le_sum fun _ _ => Nat.zero_le _

theorem reservedBy_modifyFirst {p : Entry W → Bool} {f : Entry W → Entry W}
    (hf : ∀ e, (f e).maxSampleBytes = e.maxSampleBytes) (es : List (Entry W)) :
    reservedBy (modifyFirst p f es) = reservedBy es := by
  unfold reservedBy
  rw [map_modifyFirst fun e _ _ => hf e]

theorem reservedBytes_add {domain : DomainId} {metrics : ℕ} {defn : CollectorDef} {now : ℤ} {e : Entry W}
    (h : r.add env loss owner domain metrics defn now = .ok (r', e)) :
    r'.reservedBytes = r.reservedBytes + defn.maxSampleBytes := by
  obtain ⟨_, _, rfl, rfl⟩ := add_ok h
  simp [reservedBytes, reservedBy, Entry.maxSampleBytes, armed, Collector.new]

theorem reservedBytes_editApply {p : PendingEdit W} {out : EditOutcome W}
    (h : r.editApply env loss p = .ok (r', out)) :
    r'.reservedBytes = reservedBy (r.entries.eraseP (Entry.isHeld p.id p.owner)) + p.defn.maxSampleBytes := by
  obtain ⟨e, he, rfl⟩ := editApply_ok h
  have hsum := sum_modifyFirst (f := edited env loss p) (g := Entry.maxSampleBytes) he
  simpa [reservedBytes, reservedBy, Entry.maxSampleBytes] using hsum

end CollectorRegistry

/-! ### The checks in flight -/

/-- What an edit's check established, of what the others reserved then. -/
def Task.Checked (total : ℕ) : Task W → Prop
  | .editApply p => (p.structural = true → p.reserved + p.defn.maxSampleBytes ≤ total) ∧
      (p.structural = false → p.defn.maxSampleBytes = p.oldDef.maxSampleBytes)
  | _ => True

namespace Sys

variable {env : CollectorEnv W Span} {s s' : Sys W P}

/-- What an edit's check read still bounds what is reserved: for a structural
edit the other collectors reserve no more than they did, for any other its
collector reserves what it did. -/
def bounded (r : CollectorRegistry W) (p : PendingEdit W) : Bool :=
  (r.entries.find? (Entry.isHeld p.id p.owner)).all fun e =>
    if p.structural then reservedBy (r.entries.eraseP (Entry.isHeld p.id p.owner)) ≤ p.reserved
    else e.maxSampleBytes == p.oldDef.maxSampleBytes

/-- An edit is applied only while its check bounds what is reserved. -/
def undisturbed (s : Sys W P) : Action Span → Bool
  | .step i _ =>
    match s.calls[i]? with
    | some ⟨.editApply p :: _, .none⟩ => bounded s.reg p
    | _ => true
  | _ => true

/-- The reservation is kept, and every edit in flight was checked. -/
structure Budgeted (total : ℕ) (s : Sys W P) : Prop where
  max : s.reg.maxTotalSampleBytes = total
  kept : s.reg.reservedBytes ≤ total
  checked : ∀ c ∈ s.calls, ∀ t ∈ c.tasks, t.Checked total

/-- What a section does to the reservation. -/
structure LockedBudget (total : ℕ) (res : CollectorRegistry W × List (Task W)) : Prop where
  max : res.1.maxTotalSampleBytes = total
  kept : res.1.reservedBytes ≤ total
  checked : ∀ t ∈ res.2, t.Checked total

theorem locked_budget (env : CollectorEnv W Span) {total : ℕ} (hmax : s.reg.maxTotalSampleBytes = total) (hkept : s.reg.reservedBytes ≤ total)
    {t : Task W} (ht : t.Checked total)
    (hgood : ∀ p, t = .editApply p → bounded s.reg p = true) :
    LockedBudget total (s.locked env t) := by
  cases t with
  | add owner domain metrics defn now =>
    simp only [locked]
    split
    · exact ⟨hmax, hkept, by simp⟩
    · rename_i r e hadd
      obtain ⟨_, hfit, _, rfl⟩ := add_ok hadd
      refine ⟨hmax, ?_, by simp [Task.Checked]⟩
      rw [show CollectorRegistry.reservedBytes _ = _ from reservedBytes_add hadd]
      omega
  | editCheck owner name change newMetrics now =>
    simp only [locked]
    split
    · exact ⟨hmax, hkept, by simp⟩
    · rename_i p hp
      obtain ⟨e, hc⟩ := editCheck_ok hp
      refine ⟨hmax, hkept, fun t' ht' => ?_⟩
      rcases List.mem_cons.mp ht' with rfl | ht'
      · trivial
      · obtain rfl := List.mem_singleton.mp ht'
        refine ⟨fun hs => ?_, hc.keeps⟩
        -- the others never reserve more than everybody does
        have hothers : p.reserved ≤ s.reg.reservedBytes := by
          have := sum_eraseP (g := Entry.maxSampleBytes) hc.found
          rw [hc.reserved]
          unfold reservedBytes reservedBy
          omega
        have := hc.fits hs
        omega
  | editApply p =>
    simp only [locked]
    split
    · exact ⟨hmax, hkept, by simp⟩
    · rename_i r out happly
      obtain ⟨e, he, hr⟩ := editApply_ok happly
      have hb := hgood p rfl
      simp only [bounded, he, Option.all_some] at hb
      refine ⟨by rw [hr]; exact hmax, ?_, by simp⟩
      show r.reservedBytes ≤ total
      rw [reservedBytes_editApply happly]
      cases hst : p.structural with
      | true =>
        have h1 : reservedBy (s.reg.entries.eraseP (Entry.isHeld p.id p.owner)) ≤ p.reserved := by simpa [hst] using hb
        have h2 := ht.1 hst
        omega
      | false =>
        have h1 : e.maxSampleBytes = p.oldDef.maxSampleBytes := by simpa [hst] using hb
        have h2 := ht.2 hst
        have h3 := sum_eraseP (g := Entry.maxSampleBytes) he
        unfold reservedBytes at hkept
        unfold reservedBy at hkept ⊢
        omega
  | snapshotTake owner req =>
    simp only [locked]
    split
    · exact ⟨hmax, hkept, by simp⟩
    · rename_i r t htake
      obtain ⟨_, _, _, _, _, _, rfl⟩ := snapshotTake_ok htake
      refine ⟨hmax, ?_, by simp [Task.Checked]⟩
      show reservedBy _ ≤ total
      rw [reservedBy_modifyFirst fun e => by simp [Entry.maxSampleBytes]]
      exact hkept
  | snapshotFile t =>
    simp only [locked]
    have hres : (s.reg.snapshotFile t).1.reservedBytes = s.reg.reservedBytes ∧
        (s.reg.snapshotFile t).1.maxTotalSampleBytes = s.reg.maxTotalSampleBytes := by
      unfold snapshotFile
      split
      · exact ⟨rfl, rfl⟩
      · exact ⟨reservedBy_modifyFirst (f := filed t.snap) (fun _ => rfl) _, rfl⟩
    split <;> rename_i hf <;> rw [hf] at hres
    · exact ⟨hres.2.trans hmax, by rw [hres.1]; exact hkept, by simp⟩
    · exact ⟨hres.2.trans hmax, by rw [hres.1]; exact hkept, by simp [Task.Checked]⟩
  | reset owner name now =>
    simp only [locked]
    split
    · exact ⟨hmax, hkept, by simp⟩
    · rename_i r v hr
      obtain ⟨_, _, rfl⟩ := reset_ok hr
      refine ⟨hmax, ?_, by simp⟩
      show reservedBy _ ≤ total
      rw [reservedBy_modifyFirst (f := zeroed env s.loss now .reset) fun _ => rfl]
      exact hkept
  | remove owner name =>
    simp only [locked]
    split
    · exact ⟨hmax, hkept, by simp⟩
    · rename_i r hr
      obtain rfl := remove_ok hr
      exact ⟨hmax, Nat.le_trans (reservedBy_filter_le _ _) hkept, by simp [Task.Checked]⟩
  | lifecycle changes pending =>
    cases changes with
    | nil =>
      refine ⟨hmax, hkept, fun t' ht' => ?_⟩
      simp only [locked, finish, List.mem_append, List.mem_map] at ht'
      rcases ht' with ⟨_, _, rfl⟩ | ⟨_, _, rfl⟩ <;> trivial
    | cons c cs =>
      refine ⟨?_, ?_, by simp [locked, Task.Checked]⟩
      · cases c with
        | moveOwner old new =>
          simp only [locked, change, moveOwner]
          split <;> exact hmax
        | detachSession owner => exact hmax
      · cases c with
        | moveOwner old new =>
          simp only [locked, change, moveOwner]
          split
          · exact hkept
          · have hsame : ∀ e : Entry W, (if e.owner = old then { e with owner := new } else e).maxSampleBytes =
                e.maxSampleBytes := by
              intro e
              split <;> rfl
            simpa [reservedBytes, reservedBy, Function.comp_def, hsame] using hkept
        | detachSession owner => exact Nat.le_trans (reservedBy_filter_le _ _) hkept
  | rewrite old new name since =>
    simp only [locked]
    split <;> exact ⟨hmax, hkept, by simp [Task.Checked]⟩
  | write id file => exact ⟨hmax, hkept, by simp [locked, Task.Checked]⟩
  | delete owner name since => exact ⟨hmax, hkept, by simp [locked, Task.Checked]⟩

variable [DecidableEq P] {path : String → String → P}

/-- **A step keeps the reservation unless it applies an edit whose check the
others have outgrown.** -/
theorem Budgeted.step {total : ℕ} (h : Budgeted total s) {a : Action Span} (hgood : s.undisturbed a = true)
    (hs : s.step path env a = some s') : Budgeted total s' := by
  rcases step_cases path hs with ⟨req, _, rfl⟩ | ⟨i, ok, c, ha, hi, hstep⟩ | ⟨m, k, t, _, rfl⟩ | ⟨d, sp, _, rfl⟩
  · refine ⟨h.max, h.kept, fun c hc t ht => ?_⟩
    rcases List.mem_append.mp hc with hc | hc
    · exact h.checked c hc t ht
    · obtain rfl := List.mem_singleton.mp hc
      obtain rfl := List.mem_singleton.mp ht
      cases req <;> trivial
  · have hmem := List.mem_of_getElem? hi
    rcases hstep.locked_or_quiet with ⟨t, rest, rfl, _, hreg, hcalls⟩ | ⟨hreg, c', hcalls, htasks⟩
    · have hl := locked_budget env h.max h.kept (h.checked _ hmem t List.mem_cons_self) fun p hp => by
        subst hp ha
        simpa [undisturbed, hi] using hgood
      refine ⟨by rw [hreg]; exact hl.max, by rw [hreg]; exact hl.kept, ?_⟩
      rw [hcalls]
      refine forall_set h.checked fun t' ht' => ?_
      rcases List.mem_append.mp ht' with ht' | ht'
      · exact hl.checked t' ht'
      · exact h.checked _ hmem t' (List.mem_cons_of_mem _ ht')
    · refine ⟨by rw [hreg]; exact h.max, by rw [hreg]; exact h.kept, ?_⟩
      rw [hcalls]
      exact forall_set h.checked fun t ht => h.checked c hmem t (htasks t ht)
  · exact ⟨h.max, h.kept, h.checked⟩
  · refine ⟨h.max, ?_, h.checked⟩
    have hsame : ∀ e : Entry W, (if e.domain = d ∧ env.matchesSpan e.collector.defn.filter sp then
        { e with collector := e.collector.ingest env sp } else e).maxSampleBytes = e.maxSampleBytes := by
      intro e
      split <;> rfl
    have := h.kept
    simpa [reservedBytes, reservedBy, ingestSpan, Function.comp_def, hsame] using this

end Sys

open Sys

/-- **The reservation is kept** in every state of every run, saves failing or
not, in which an edit is applied only while what its check read still
bounds what is reserved. -/
theorem reservation_kept [DecidableEq P] (env : CollectorEnv W Span) (path : String → String → P) (total : ℕ)
    (metrics : ℕ → ReceiverMetrics) (disk : P → Option (DiskFile W)) {s : Sys W P}
    (hreach : Reach (Sys.step path env) (fun s a => s.undisturbed a = true) (Sys.start (.withBudget total) metrics disk) s) :
    s.reg.reservedBytes ≤ s.reg.maxTotalSampleBytes := by
  have h : Budgeted total s := by
    refine hreach.invariant (I := Budgeted total) ⟨rfl, Nat.zero_le _, by simp [Sys.start]⟩ ?_
    intro s a s' h hgood hs
    exact h.step hgood hs
  rw [h.max]
  exact h.kept

/-- A call's remaining steps, more than enough of them for a write. -/
def sevenSteps (i : ℕ) : List (Action Unit) := List.replicate 7 (.step i true)

/-- A collector armed and then resized, one call after the other. -/
def resizeActs (o : SessionName) : List (Action Unit) :=
  .call (.add o ⟨"default"⟩ 0 (.sample "a" 1) 0) :: sevenSteps 0 ++
    .call (.edit o "a" { CollectorEdit.default with maxSampleBytes := some 9 } none 0) :: sevenSteps 1 ++ [.step 1 true]

theorem reservation_kept_resized : ∃ s : Sys ℕ (String × String),
    runActs (Sys.step Prod.mk .counting) (Sys.start (.withBudget 10) (fun _ => .new) fun _ => none)
      (resizeActs ⟨"o", by decide⟩) = some s ∧
    s.reg.reservedBytes = 9 ∧ s.reg.reservedBytes ≤ s.reg.maxTotalSampleBytes := by
  refine ⟨_, rfl, by decide, ?_⟩
  exact reservation_kept .counting Prod.mk 10 (fun _ => .new) (fun _ => none)
    (reach_guarded (fun _ _ h => h) (resizeActs ⟨"o", by decide⟩) .start rfl)

/-- Two collectors of one byte each, in a daemon with ten: each is resized to
nine, both checks pass, and then both are applied. -/
def crossActs (o : SessionName) : List (Action Unit) :=
  .call (.add o ⟨"default"⟩ 0 (.sample "a" 1) 0) :: sevenSteps 0 ++
    .call (.add o ⟨"default"⟩ 0 (.sample "b" 1) 0) :: sevenSteps 1 ++
    [.call (.edit o "a" { CollectorEdit.default with maxSampleBytes := some 9 } none 0), .step 2 true,
     .call (.edit o "b" { CollectorEdit.default with maxSampleBytes := some 9 } none 0), .step 3 true] ++
    List.replicate 7 (.step 2 true) ++ List.replicate 7 (.step 3 true)

theorem reservation_exceeded : ∃ s : Sys ℕ (String × String),
    runActs (Sys.step Prod.mk .counting) (Sys.start (.withBudget 10) (fun _ => .new) fun _ => none)
      (crossActs ⟨"o", by decide⟩) = some s ∧
    s.reg.maxTotalSampleBytes = 10 ∧ s.reg.reservedBytes = 18 :=
  ⟨_, rfl, by decide, by decide⟩

end Logmon
