/-
# Log entries

The record every log takes from ingest to the ring (`gelf/message.rs`). Its
`seq` is a `u64`, which the structure carries as a field. Two entries are the
same record when they differ at most in why the ring kept them
(`LogEntry.SameRecord`): a trigger's flush and a filter store one arrival
with different `source` and `matched_filters`.

Key definitions: `Level`, `JsonValue`, `LogEntry`, `LogEntry.withSeq`,
`LogEntry.SameRecord`.
-/
import Logmon.Lib.Word
import Mathlib.Data.Int.Notation

namespace Logmon

open Lib

/-- Severity, lowest first. -/
inductive Level
  | trace
  | debug
  | info
  | warn
  | error
  deriving DecidableEq, Repr

/-- `Level as u8`. -/
def Level.rank : Level → ℕ
  | .trace => 0
  | .debug => 1
  | .info => 2
  | .warn => 3
  | .error => 4

/-- Why the ring kept an entry. -/
inductive LogSource
  | filter
  | preTrigger
  | postTrigger
  deriving DecidableEq, Repr

/-- A JSON value as the log paths read it: a scalar, or an array or object,
of which only the rendering is ever read. -/
inductive JsonValue
  | null
  | bool (b : Bool)
  | number (text : String)
  | string (s : String)
  | compound (text : String)
  deriving DecidableEq, Repr

/-- The text a pattern is matched against: a string as it is, any other value
as JSON renders it. -/
def JsonValue.text : JsonValue → String
  | .null => "null"
  | .bool b => if b then "true" else "false"
  | .number t => t
  | .string s => s
  | .compound t => t

/-- One log record. Times are nanoseconds since the epoch. -/
structure LogEntry where
  seq : ℕ
  timestamp : ℤ
  level : Level
  message : String
  fullMessage : Option String
  host : String
  facility : Option String
  file : Option String
  line : Option ℕ
  additionalFields : List (String × JsonValue)
  traceId : Option ℕ
  spanId : Option ℕ
  matchedFilters : List String
  source : LogSource
  seq_le : seq ≤ u64Max
  deriving DecidableEq

namespace LogEntry

/-- A record of which only the seq is of interest. -/
def blank (n : ℕ) : LogEntry where
  seq := min n u64Max
  timestamp := 0
  level := .info
  message := ""
  fullMessage := none
  host := ""
  facility := none
  file := none
  line := none
  additionalFields := []
  traceId := none
  spanId := none
  matchedFilters := []
  source := .filter
  seq_le := Nat.min_le_right _ _

/-- The entry under the seq it is assigned. -/
def withSeq (e : LogEntry) (n : ℕ) (h : n ≤ u64Max) : LogEntry := { e with seq := n, seq_le := h }

/-- The entry without why it was kept. -/
def core (e : LogEntry) : LogEntry := { e with matchedFilters := [], source := .filter }

/-- The same record, kept for whatever reason. -/
def SameRecord (a b : LogEntry) : Prop := a.core = b.core

theorem SameRecord.refl (a : LogEntry) : SameRecord a a := rfl

theorem SameRecord.trans {a b c : LogEntry} (h : SameRecord a b) (h' : SameRecord b c) : SameRecord a c :=
  Eq.trans h h'

theorem SameRecord.seq {a b : LogEntry} (h : SameRecord a b) : a.seq = b.seq := by
  have := congrArg LogEntry.seq (show a.core = b.core from h)
  exact this

theorem sameRecord_source (e : LogEntry) (s : LogSource) : SameRecord { e with source := s } e := rfl

theorem sameRecord_matched (e : LogEntry) (m : List String) (s : LogSource) :
    SameRecord { e with matchedFilters := m, source := s } e := rfl

end LogEntry
end Logmon
