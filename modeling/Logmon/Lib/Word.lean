/-
# Saturating 64-bit arithmetic on natural numbers

A `u64` or a `usize` is a natural number that a bound keeps at most `u64Max`.
`saturating_sub` is the subtraction of `ℕ`; `saturating_add` is `satAdd`.

Key definitions: `u64Max`, `satAdd`.
-/
import Mathlib.Tactic.Linarith

namespace Logmon
namespace Lib

/-- `u64::MAX`, and `usize::MAX` on a 64-bit target. -/
def u64Max : ℕ := 2 ^ 64 - 1

theorem one_le_u64Max : 1 ≤ u64Max := by decide

theorem four_le_u64Max : 4 ≤ u64Max := by decide

/-- `saturating_add`. -/
def satAdd (a b : ℕ) : ℕ := min (a + b) u64Max

theorem satAdd_le (a b : ℕ) : satAdd a b ≤ u64Max := Nat.min_le_right _ _

theorem satAdd_le_add (a b : ℕ) : satAdd a b ≤ a + b := Nat.min_le_left _ _

theorem le_satAdd {a b : ℕ} (h : a ≤ u64Max) : a ≤ satAdd a b := by
  unfold satAdd; omega

/-- Below the top the sum is exact. -/
theorem satAdd_one {a : ℕ} (h : a < u64Max) : satAdd a 1 = a + 1 := by
  unfold satAdd; omega

theorem satAdd_one_le {a b : ℕ} (h : a < b) : satAdd a 1 ≤ b := by
  unfold satAdd; omega

theorem satAdd_mono {a b : ℕ} (h : a ≤ b) (c : ℕ) : satAdd a c ≤ satAdd b c := by
  unfold satAdd; omega

end Lib
end Logmon
