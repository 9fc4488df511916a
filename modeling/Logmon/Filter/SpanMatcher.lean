/-
# Matching a span against a filter

`filter/matcher.rs` for spans. A bare pattern reads the span's name, a
selector one of its texts, an additional field the attribute of exactly that
name; what only a log has matches no span.

A span keeps its duration by its bits, so a threshold is compared with the
value they denote (`F64.ofBits`).

Key definitions: `F64.ofBits`, `F64.le`, `matchesSpanQualifier`,
`matchesSpan`.
Key theorem: `matchesSpan_congr`.
-/
import Logmon.Filter.Matcher
import Logmon.Span.Store

namespace Logmon

open Lib

/-! ### Durations -/

/-- `f64::from_bits`; the two zeros are one value. -/
def F64.ofBits (n : ℕ) : F64 :=
  let negative := n / 2 ^ 63 % 2 = 1
  let exponent : ℕ := n / 2 ^ 52 % 2 ^ 11
  let fraction : ℕ := n % 2 ^ 52
  if exponent = 2 ^ 11 - 1 then
    if fraction ≠ 0 then .nan else if negative then .negInf else .posInf
  else
    let magnitude : ℚ :=
      if exponent = 0 then (fraction : ℚ) / 2 ^ 1074 else (2 ^ 52 + (fraction : ℚ)) * 2 ^ exponent / 2 ^ 1075
    .finite (if negative then -magnitude else magnitude)

/-- `<=` on `f64`. -/
def F64.le : F64 → F64 → Bool
  | .nan, _ => false
  | _, .nan => false
  | .negInf, _ => true
  | _, .posInf => true
  | .finite a, .finite b => a ≤ b
  | _, _ => false

/-- `SpanEntry::duration_ms`. -/
def SpanEntry.durationMs (span : SpanEntry) : F64 := .ofBits span.durationBits

/-! ### The matcher -/

/-- `Debug`. -/
def SpanKind.debugName : SpanKind → String
  | .unspecified => "Unspecified"
  | .internal => "Internal"
  | .server => "Server"
  | .client => "Client"
  | .producer => "Producer"
  | .consumer => "Consumer"

/-- `Value::as_str`. -/
def JsonValue.asStr : JsonValue → Option String
  | .string s => some s
  | _ => none

variable (E : TextEnv)

/-- A status by its name, or an error by its message. -/
def matchesStatus (p : Pattern) (status : SpanStatus) : Bool :=
  let patLower := match p with
    | .substring s => s
    | .regex source _ => E.toLowercase source
  match status with
  | .error message => patLower == "error" || matchesPattern E p message
  | .ok => patLower == "ok"
  | .unset => patLower == "unset"

def matchesSpanSelector (s : Selector) (p : Pattern) (span : SpanEntry) : Bool :=
  match s with
  | .spanName => matchesPattern E p span.name
  | .serviceName => matchesPattern E p span.serviceName
  | .spanStatus => matchesStatus E p span.status
  | .spanKind => matchesPattern E p (E.toLowercase span.kind.debugName)
  | .additionalField key => matchesOpt E p ((span.attributes.lookup key).bind JsonValue.asStr)
  | _ => false

def matchesSpanQualifier (q : Qualifier) (span : SpanEntry) : Bool :=
  match q with
  | .barePattern p => matchesPattern E p span.name
  | .selectorPattern s p => matchesSpanSelector E s p span
  | .durationFilter .gte threshold => threshold.le span.durationMs
  | .durationFilter .lte threshold => span.durationMs.le threshold
  | .levelFilter _ _ => false
  | .bookmarkFilter _ _ => false
  | .cursorFilter _ => false
  | .seqFilter .gt v => v < span.seq
  | .seqFilter .lt v => span.seq < v
  | .cursorSeq after => after < span.seq

def matchesSpan (f : ParsedFilter) (span : SpanEntry) : Bool :=
  match f with
  | .all => true
  | .none => false
  | .qualifiers qs => qs.all fun q => matchesSpanQualifier E q span

/-- Qualifiers are all asked for, so only which ones there are matters. -/
theorem matchesSpan_congr {qs rs : List Qualifier} (h : ∀ q, q ∈ qs ↔ q ∈ rs) (span : SpanEntry) :
    matchesSpan E (.qualifiers qs) span = matchesSpan E (.qualifiers rs) span := by
  simp only [matchesSpan]
  rw [Bool.eq_iff_iff, List.all_eq_true, List.all_eq_true]
  exact forall_congr' fun q => by rw [h q]

end Logmon
