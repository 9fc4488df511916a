/-
# Reachable states

A system takes actions one at a time: `step` says what an action does in a
state, or that it cannot happen there, and `good` which actions a run is
allowed. A property that holds at the start and that every allowed step keeps
holds in every state reached.

Key definitions: `Reach`, `runActs`, `guarded`.
Key theorems: `Reach.invariant`, `reach_guarded`, `reach_decided`.
-/
import Mathlib.Tactic.Linarith

namespace Logmon
namespace Lib

variable {S A : Type}

/-- The states that runs of allowed actions reach from `init`. -/
inductive Reach (step : S → A → Option S) (good : S → A → Prop) (init : S) : S → Prop
  | start : Reach step good init init
  | next {s s' : S} {a : A} : Reach step good init s → good s a → step s a = some s' → Reach step good init s'

variable {step : S → A → Option S} {good : S → A → Prop} {init : S}

/-- The invariant rule. -/
theorem Reach.invariant {I : S → Prop} (h0 : I init)
    (hstep : ∀ s a s', I s → good s a → step s a = some s' → I s') {s : S} (h : Reach step good init s) : I s := by
  induction h with
  | start => exact h0
  | next _ hg hs ih => exact hstep _ _ _ ih hg hs

/-- A run of given actions, when each can happen. -/
def runActs (step : S → A → Option S) : S → List A → Option S
  | s, [] => some s
  | s, a :: as => match step s a with
    | none => none
    | some s' => runActs step s' as

theorem runActs_append : ∀ (as bs : List A) (s : S), runActs step s (as ++ bs) =
    (runActs step s as).bind fun s' => runActs step s' bs
  | [], _, _ => rfl
  | a :: as, bs, s => by
    rw [List.cons_append, runActs, runActs]
    cases step s a with
    | none => rfl
    | some s' => exact runActs_append as bs s'

/-- What given actions reach, where all are allowed. -/
theorem reach_runActs : ∀ (as : List A) {s s' : S}, Reach step (fun _ _ => True) init s → runActs step s as = some s' →
    Reach step (fun _ _ => True) init s'
  | [], _, _, h, hr => by
    obtain rfl := Option.some.inj hr
    exact h
  | a :: as, s, s', h, hr => by
    unfold runActs at hr
    split at hr
    · simp at hr
    · rename_i s1 hs
      exact reach_runActs as (.next h trivial hs) hr

/-- The steps that a check allows. -/
def guarded (step : S → A → Option S) (g : S → A → Bool) (s : S) (a : A) : Option S := if g s a then step s a else none

/-- What given actions reach, each checked where it is taken. -/
theorem reach_guarded {g : S → A → Bool} (hg : ∀ s a, g s a = true → good s a) : ∀ (as : List A) {s s' : S},
    Reach step good init s → runActs (guarded step g) s as = some s' → Reach step good init s'
  | [], _, _, h, hr => by
    obtain rfl := Option.some.inj hr
    exact h
  | a :: as, s, s', h, hr => by
    unfold runActs at hr
    split at hr
    · simp at hr
    · rename_i s1 hs
      unfold guarded at hs
      split at hs
      · rename_i hga
        exact reach_guarded hg as (.next h (hg s a hga) hs) hr
      · simp at hs

/-- Given allowed actions reach a state with what is decided of it. -/
theorem reach_decided [∀ s a, Decidable (good s a)] (as : List A) {P : S → Prop} [DecidablePred P]
    (h : ((runActs (guarded step fun s a => decide (good s a)) init as).any fun s => decide (P s)) = true) :
    ∃ s, Reach step good init s ∧ P s := by
  obtain ⟨s, hs, hp⟩ := (Option.any_eq_true _ _).mp h
  exact ⟨s, reach_guarded (fun _ _ h => of_decide_eq_true h) as .start hs, of_decide_eq_true hp⟩

end Lib
end Logmon
