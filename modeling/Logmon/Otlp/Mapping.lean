/-
# What both OTLP transports share

`receiver/otlp/mapping.rs`: severities, ids, timestamps and resource
attributes, and the record a receiver builds, whose attributes are JSON values.

A timestamp of 64-bit nanoseconds is always one the calendar has, so the
current time is never put in its place (`nanosToDatetime_eq`).

Key definitions: `severityToLevel`, `bytesToTraceId`, `timestampOpt`,
`nanosToDatetime`, `keyValuesToPairs`, `extractResourceAttrs`,
`ReceivedSpan`, `ReceivedLog`.
Key theorems: `nanosToDatetime_eq`.
-/
import Logmon.Otlp.Request
import Logmon.Span.Store

namespace Logmon

open Lib

/-- Severity numbers; one that is not in use is `Info`. -/
def severityToLevel (severity : ℤ) : Level :=
  if 1 ≤ severity ∧ severity ≤ 4 then .trace
  else if 5 ≤ severity ∧ severity ≤ 8 then .debug
  else if 9 ≤ severity ∧ severity ≤ 12 then .info
  else if 13 ≤ severity ∧ severity ≤ 16 then .warn
  else if 17 ≤ severity ∧ severity ≤ 24 then .error
  else .info

/-- `from_be_bytes`. -/
def beNat (bytes : List UInt8) : ℕ := bytes.foldl (fun n b => n * 256 + b.toNat) 0

/-- An id of `width` bytes; none if it has another length or is zero. -/
def bytesToId (width : ℕ) (bytes : List UInt8) : Option ℕ :=
  if bytes.length ≠ width then none else if beNat bytes = 0 then none else some (beNat bytes)

def bytesToTraceId (bytes : List UInt8) : Option ℕ := bytesToId 16 bytes

def bytesToSpanId (bytes : List UInt8) : Option ℕ := bytesToId 8 bytes

/-! ### Timestamps -/

/-- The seconds of `DateTime::<Utc>::MIN_UTC`. -/
def minUtcSecs : ℤ := -8334601228800

/-- The seconds of `DateTime::<Utc>::MAX_UTC`. -/
def maxUtcSecs : ℤ := 8210266876799

/-- `Utc.timestamp_opt(secs, nsecs).single()`: an instant within the calendar,
in nanoseconds since the epoch. Nanoseconds past a second are a leap second's. -/
def timestampOpt (secs : ℤ) (nsecs : ℕ) : Option ℤ :=
  if minUtcSecs ≤ secs ∧ secs ≤ maxUtcSecs ∧ (nsecs < 10 ^ 9 ∨ nsecs < 2 * 10 ^ 9 ∧ secs % 60 = 59) then
    some (secs * 10 ^ 9 + nsecs)
  else none

/-- Where the instant is not in the calendar, the current time. -/
def nanosToDatetime (now : ℤ) (nanos : UInt64) : ℤ :=
  (timestampOpt ((nanos.toNat / 1000000000 : ℕ) : ℤ) (nanos.toNat % 1000000000)).getD now

/-- **A 64-bit timestamp is never replaced by the current time.** -/
theorem nanosToDatetime_eq (now : ℤ) (nanos : UInt64) : nanosToDatetime now nanos = nanos.toNat := by
  have hlt := nanos.toNat_lt
  have hsecs : nanos.toNat / 1000000000 ≤ 18446744073 := by omega
  have hsub : nanos.toNat % 1000000000 < 10 ^ 9 := Nat.mod_lt _ (by decide)
  unfold nanosToDatetime timestampOpt
  rw [if_pos ⟨by unfold minUtcSecs; omega, by unfold maxUtcSecs; omega, .inl hsub⟩, Option.getD_some]
  omega

/-! ### Resource attributes -/

/-- What the receivers use of `f64`, and of the rendering of JSON. -/
structure WireEnv (D : Type) where
  /-- `to_string`. -/
  text : D → String
  /-- An integer as `f64`. -/
  ofInt : ℤ → D
  /-- `(end as f64 - start as f64) / 1_000_000.0`. -/
  durationMs : UInt64 → UInt64 → D
  bits : D → ℕ
  render : Json D → String

variable {D : Type} (W : WireEnv D)

/-- `{:?}` of a byte vector. -/
def debugBytes (bytes : List UInt8) : String := "[" ++ String.intercalate ", " (bytes.map fun b => toString b.toNat) ++ "]"

/-- The text of a resource attribute's value, if it has one. -/
def pairText : AnyValue D → Option String
  | .string s => some s
  | .int n => some (toString n.toInt)
  | .double d => some (W.text d)
  | .bool b => some (if b then "true" else "false")
  | .bytes b => some (debugBytes b)
  | .array _ => none
  | .kvlist _ => none
  | .unset => none

def keyValuesToPairs (kvs : List (KeyValue D)) : List (String × String) :=
  kvs.filterMap fun kv => (kv.2.bind (pairText W)).map (kv.1, ·)

/-- The service and the host a resource names. -/
def extractResourceAttrs (attrs : List (String × String)) : String × String :=
  attrs.foldl (fun s kv =>
    if kv.1 = "service.name" then (kv.2, s.2) else if kv.1 = "host.name" then (s.1, kv.2) else s)
    ("unknown", "unknown")

/-! ### Records -/

/-- An event of a received span. -/
structure ReceivedEvent (D : Type) where
  name : String
  timestamp : ℤ
  attributes : List (String × Json D)

/-- A `SpanEntry` as a receiver builds it. -/
structure ReceivedSpan (D : Type) where
  traceId : ℕ
  spanId : ℕ
  parentSpanId : Option ℕ
  startTime : ℤ
  endTime : ℤ
  durationMs : D
  name : String
  kind : SpanKind
  serviceName : String
  status : SpanStatus
  attributes : List (String × Json D)
  events : List (ReceivedEvent D)

/-- A `LogEntry` as a receiver builds it. Its file and line are always none. -/
structure ReceivedLog (D : Type) where
  timestamp : ℤ
  level : Level
  message : String
  fullMessage : Option String
  host : String
  facility : Option String
  additionalFields : List (String × Json D)
  traceId : Option ℕ
  spanId : Option ℕ

/-- A JSON value as the stores read it. -/
def Json.value : Json D → JsonValue
  | .null => .null
  | .bool b => .bool b
  | .int n => .number (toString n)
  | .float d => .number (W.render (.float d))
  | .string s => .string s
  | .array values => .compound (W.render (.array values))
  | .object fields => .compound (W.render (.object fields))

/-- The entry a received span is, its `seq` not assigned yet. -/
def ReceivedSpan.entry (x : ReceivedSpan D) : SpanEntry where
  seq := 0
  traceId := x.traceId
  spanId := x.spanId
  parentSpanId := x.parentSpanId
  startTime := x.startTime
  endTime := x.endTime
  durationBits := W.bits x.durationMs
  name := x.name
  kind := x.kind
  serviceName := x.serviceName
  status := x.status
  attributes := x.attributes.map fun q => (q.1, q.2.value W)
  events := x.events.map fun e => ⟨e.name, e.timestamp, e.attributes.map fun q => (q.1, q.2.value W)⟩
  seq_le := Nat.zero_le _

end Logmon
