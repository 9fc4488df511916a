/-
# OTLP over gRPC

`receiver/otlp/grpc.rs`: the values of a request as text and as JSON, and the
two export services. A service under backpressure refuses the request whole;
else every record is offered to the channel in its order, and one that cannot
be used is counted.

Key definitions: `formatAnyValue`, `anyValueToJson`, `attrsToJsonMap`,
`grpcLog`, `grpcSpan`, `logsServiceExport`, `traceServiceExport`.
-/
import Logmon.Otlp.Mapping

namespace Logmon

open Lib

variable {D : Type} (W : WireEnv D)

/-- `BACKPRESSURE_THRESHOLD_PCT`. -/
def backpressureThresholdPct : ℕ := 80

/-! ### Values -/

/-- `{:02x}` of every byte. -/
def hexBytes (bytes : List UInt8) : String :=
  String.ofList (bytes.flatMap fun b => [Nat.digitChar (b.toNat / 16), Nat.digitChar (b.toNat % 16)])

mutual

/-- A value as text; none where there is none. -/
def formatAnyValue : AnyValue D → Option String
  | .string s => some s
  | .int n => some (toString n.toInt)
  | .double d => some (W.text d)
  | .bool b => some (if b then "true" else "false")
  | .bytes b => some (hexBytes b)
  | .array values => some ("[" ++ String.intercalate ", " (formatValues values) ++ "]")
  | .kvlist values => some ("\x7b" ++ String.intercalate ", " (formatKeyValues values) ++ "\x7d")
  | .unset => none

def formatValues : List (AnyValue D) → List String
  | [] => []
  | v :: values => (formatAnyValue v).toList ++ formatValues values

def formatKeyValues : List (String × Option (AnyValue D)) → List String
  | [] => []
  | (_, none) :: values => formatKeyValues values
  | (key, some v) :: values => ((formatAnyValue v).map fun t => key ++ "=" ++ t).toList ++ formatKeyValues values

end

mutual

/-- A value as JSON; none where there is none. -/
def anyValueToJson : AnyValue D → Option (Json D)
  | .string s => some (.string s)
  | .int n => some (.int n.toInt)
  | .double d => some (.float d)
  | .bool b => some (.bool b)
  | .bytes b => some (.string (hexBytes b))
  | .array values => some (.array (valuesToJson values))
  | .kvlist values => some (.object (collect (keyValuesToJson values)))
  | .unset => none

def valuesToJson : List (AnyValue D) → List (Json D)
  | [] => []
  | v :: values => (anyValueToJson v).toList ++ valuesToJson values

def keyValuesToJson : List (String × Option (AnyValue D)) → List (String × Json D)
  | [] => []
  | (_, none) :: values => keyValuesToJson values
  | (key, some v) :: values => ((anyValueToJson v).map (key, ·)).toList ++ keyValuesToJson values

end

def attrsToJsonMap (attrs : List (KeyValue D)) : List (String × Json D) := collect (keyValuesToJson attrs)

/-! ### Records -/

def mapSpanKind (kind : Int32) : SpanKind :=
  match kind.toInt with
  | 1 => .internal
  | 2 => .server
  | 3 => .client
  | 4 => .producer
  | 5 => .consumer
  | _ => .unspecified

def mapSpanStatus : Option OtlpStatus → SpanStatus
  | none => .unset
  | some s =>
    match s.code.toInt with
    | 0 => .unset
    | 1 => .ok
    | 2 => .error s.message
    | _ => .unset

def mapSpanEvents (now : ℤ) (events : List (OtlpEvent D)) : List (ReceivedEvent D) :=
  events.map fun e => ⟨e.name, nanosToDatetime now e.timeUnixNano, attrsToJsonMap e.attributes⟩

/-- The service and the host of a resource, if there is one. -/
def resourceNames (resource : Option (List (KeyValue D))) : String × String :=
  extractResourceAttrs ((resource.map (keyValuesToPairs W)).getD [])

/-- A message longer than 200 bytes is kept in full beside. -/
def fullMessageOf (message : String) : Option String := if message.utf8ByteSize > 200 then some message else none

/-- The loop body of the logs service; none for a record without a message. -/
def grpcLog (now : ℤ) (names : String × String) (r : OtlpLogRecord D) : Option (ReceivedLog D) :=
  let message := (r.body.bind (formatAnyValue W)).getD ""
  if message.isEmpty then none
  else
    some
      { timestamp := if r.timeUnixNano > 0 then nanosToDatetime now r.timeUnixNano else now
        level := severityToLevel r.severityNumber.toInt
        message
        fullMessage := fullMessageOf message
        host := names.2
        facility := some names.1
        additionalFields := attrsToJsonMap r.attributes
        traceId := bytesToTraceId r.traceId
        spanId := bytesToSpanId r.spanId }

/-- The loop body of the trace service; none for a malformed span. -/
def grpcSpan (now : ℤ) (service : String) (x : OtlpSpan D) : Option (ReceivedSpan D) :=
  match bytesToTraceId x.traceId with
  | none => none
  | some traceId =>
    match bytesToSpanId x.spanId with
    | none => none
    | some spanId =>
      if x.name.isEmpty then none
      else
        some
          { traceId
            spanId
            parentSpanId := bytesToSpanId x.parentSpanId
            startTime := nanosToDatetime now x.startTimeUnixNano
            endTime := nanosToDatetime now x.endTimeUnixNano
            durationMs := W.durationMs x.startTimeUnixNano x.endTimeUnixNano
            name := x.name
            kind := mapSpanKind x.kind
            serviceName := service
            status := mapSpanStatus x.status
            attributes := attrsToJsonMap x.attributes
            events := mapSpanEvents now x.events }

/-! ### The services -/

/-- What an export that was taken made of its request: the records offered to
the channel, in order, and how many were malformed. -/
structure Exported (R : Type) where
  records : List R
  malformed : ℕ

/-- The records that can be used, and a count of the others. -/
def Exported.ofList {R : Type} (results : List (Option R)) : Exported R :=
  ⟨results.filterMap id, results.countP Option.isNone⟩

/-- The records of a request, each with its resource's names. -/
def logRecords (req : List (ResourceLogs D)) : List ((String × String) × OtlpLogRecord D) :=
  req.flatMap fun rl => rl.scopeLogs.flatten.map fun r => (resourceNames W rl.resource, r)

def spanRecords (req : List (ResourceSpans D)) : List (String × OtlpSpan D) :=
  req.flatMap fun rs => rs.scopeSpans.flatten.map fun x => ((resourceNames W rs.resource).1, x)

/-- `LogsService::export`, at how full the channel is. -/
def logsServiceExport (now : ℤ) (usedPct : ℕ) (req : List (ResourceLogs D)) : Option (Exported (ReceivedLog D)) :=
  if backpressureThresholdPct ≤ usedPct then none
  else some (.ofList ((logRecords W req).map fun q => grpcLog W now q.1 q.2))

/-- `TraceService::export`. -/
def traceServiceExport (now : ℤ) (usedPct : ℕ) (req : List (ResourceSpans D)) : Option (Exported (ReceivedSpan D)) :=
  if backpressureThresholdPct ≤ usedPct then none
  else some (.ofList ((spanRecords W req).map fun q => grpcSpan W now q.1 q.2))

end Logmon
