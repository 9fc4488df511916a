/-
# Export requests

What an OTLP exporter sends, in its two forms: the messages of
`opentelemetry_proto` that the gRPC services receive, and the JSON values of
`serde_json` that the HTTP handlers do. A double is a finite `f64`, of any
type `D`.

Key definitions: `AnyValue`, `KeyValue`, `OtlpSpan`, `OtlpLogRecord`,
`ResourceLogs`, `ResourceSpans`, `Json`.
-/
import Logmon.Lib.Collect
import Mathlib.Data.Int.Notation
import Mathlib.Data.String.Basic

namespace Logmon

open Lib

/-! ### Messages -/

/-- `AnyValue`; one that holds no value is `unset`. -/
inductive AnyValue (D : Type)
  | string (s : String)
  | int (n : Int64)
  | double (d : D)
  | bool (b : Bool)
  | bytes (b : List UInt8)
  | array (values : List (AnyValue D))
  | kvlist (values : List (String × Option (AnyValue D)))
  | unset

/-- `KeyValue`: a key, and a value if the message has one. -/
abbrev KeyValue (D : Type) := String × Option (AnyValue D)

/-- `Status`. -/
structure OtlpStatus where
  message : String
  code : Int32

/-- `span::Event`. -/
structure OtlpEvent (D : Type) where
  timeUnixNano : UInt64
  name : String
  attributes : List (KeyValue D)

/-- `Span`, as far as it is read. -/
structure OtlpSpan (D : Type) where
  traceId : List UInt8
  spanId : List UInt8
  parentSpanId : List UInt8
  name : String
  kind : Int32
  startTimeUnixNano : UInt64
  endTimeUnixNano : UInt64
  attributes : List (KeyValue D)
  events : List (OtlpEvent D)
  status : Option OtlpStatus

/-- `LogRecord`, as far as it is read. -/
structure OtlpLogRecord (D : Type) where
  timeUnixNano : UInt64
  severityNumber : Int32
  body : Option (AnyValue D)
  attributes : List (KeyValue D)
  traceId : List UInt8
  spanId : List UInt8

/-- `ResourceLogs`: the resource's attributes, and the records of each scope. -/
structure ResourceLogs (D : Type) where
  resource : Option (List (KeyValue D))
  scopeLogs : List (List (OtlpLogRecord D))

/-- `ResourceSpans`. -/
structure ResourceSpans (D : Type) where
  resource : Option (List (KeyValue D))
  scopeSpans : List (List (OtlpSpan D))

/-! ### JSON -/

/-- `serde_json::Value`. An object's fields are its map's bindings. -/
inductive Json (D : Type)
  | null
  | bool (b : Bool)
  /-- A number that is an `i64` or a `u64`. -/
  | int (n : ℤ)
  | float (d : D)
  | string (s : String)
  | array (values : List (Json D))
  | object (fields : List (String × Json D))

namespace Json

variable {D : Type}

def get (key : String) : Json D → Option (Json D)
  | .object fields => valueOf fields key
  | _ => none

def asStr : Json D → Option String
  | .string s => some s
  | _ => none

def asArray : Json D → Option (List (Json D))
  | .array values => some values
  | _ => none

def asBool : Json D → Option Bool
  | .bool b => some b
  | _ => none

def asI64 : Json D → Option ℤ
  | .int n => if -2 ^ 63 ≤ n ∧ n < 2 ^ 63 then some n else none
  | _ => none

def asU64 : Json D → Option UInt64
  | .int n => if 0 ≤ n ∧ n < 2 ^ 64 then some (UInt64.ofNat n.toNat) else none
  | _ => none

/-- `as_f64`; `ofInt` is the conversion of an integer. -/
def asF64 (ofInt : ℤ → D) : Json D → Option D
  | .int n => some (ofInt n)
  | .float d => some d
  | _ => none

end Json

end Logmon
