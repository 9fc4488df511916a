/-
# Who and where

The names of `daemon/session.rs` and `daemon/domain.rs` that the stores and
the collectors are keyed by.

Key definitions: `SessionName`, `DomainId`.
-/
import Mathlib.Tactic.Linarith

namespace Logmon

/-- A session's name. -/
structure SessionName where
  text : String
  noSlash : '/' ∉ text.toList
  deriving DecidableEq

theorem noSlash_a : '/' ∉ "a".toList := by decide

theorem noSlash_s : '/' ∉ "s".toList := by decide

/-- A domain's name. -/
structure DomainId where
  name : String
  deriving DecidableEq

end Logmon
