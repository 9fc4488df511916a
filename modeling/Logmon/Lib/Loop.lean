/-
# Loops that end

A loop takes rounds on a state until one of them is the last. Run with a bound
on the rounds it may be `stuck`; where every round that goes on lowers a
measure, and the bound is over it, it is not, and it answers what its last round
or its failing one does (`loop_post`).

Key definitions: `Round`, `loop`.
Key theorems: `loop_post`, `loop_ok_of_le`.
-/
import Mathlib.Tactic.Linarith

namespace Logmon
namespace Lib

variable {σ α ε : Type}

/-- How a round ends: in another one, or in the loop's answer. -/
inductive Round (σ α : Type)
  | again (s : σ)
  | done (a : α)

/-- Rounds from a state on, `fuel` of them at most. -/
def loop (stuck : ε) (round : σ → Except ε (Round σ α)) : ℕ → σ → Except ε α
  | 0, _ => .error stuck
  | fuel + 1, s =>
    match round s with
    | .error e => .error e
    | .ok (.done a) => .ok a
    | .ok (.again s') => loop stuck round fuel s'

/-- A round that goes on keeps `I` and lowers `measure`; one that does not
answers `Post`. -/
def RoundPost (I : σ → Prop) (measure : σ → ℕ) (Post : Except ε α → Prop) (s : σ) : Except ε (Round σ α) → Prop
  | .error e => Post (.error e)
  | .ok (.done a) => Post (.ok a)
  | .ok (.again s') => I s' ∧ measure s' < measure s

/-- **The loop rule.** -/
theorem loop_post (I : σ → Prop) (measure : σ → ℕ) (Post : Except ε α → Prop) {stuck : ε}
    {round : σ → Except ε (Round σ α)} (hround : ∀ s, I s → RoundPost I measure Post s (round s)) :
    ∀ {fuel : ℕ} {s : σ}, I s → measure s < fuel → Post (loop stuck round fuel s)
  | 0, _, _, hfuel => absurd hfuel (Nat.not_lt_zero _)
  | fuel + 1, s, hI, hfuel => by
    have hpost := hround s hI
    unfold loop
    cases hr : round s with
    | error e =>
      rw [hr] at hpost
      exact hpost
    | ok r =>
      rw [hr] at hpost
      cases r with
      | done a => exact hpost
      | again s' => exact loop_post I measure Post hround hpost.1 (by have := hpost.2; omega)

/-- More rounds than the loop took change nothing. -/
theorem loop_ok_of_le {stuck : ε} {round : σ → Except ε (Round σ α)} {a : α} : ∀ {fuel fuel' : ℕ} {s : σ},
    fuel ≤ fuel' → loop stuck round fuel s = .ok a → loop stuck round fuel' s = .ok a
  | 0, _, _, _, h => by simp [loop] at h
  | fuel + 1, 0, _, hle, _ => absurd hle (by omega)
  | fuel + 1, fuel' + 1, s, hle, h => by
    unfold loop at h ⊢
    cases hr : round s with
    | error e =>
      rw [hr] at h
      exact h
    | ok r =>
      rw [hr] at h
      cases r with
      | done b => exact h
      | again s' => exact loop_ok_of_le (by omega) h

end Lib
end Logmon
