/-
# OTLP over HTTP

`receiver/otlp/http.rs`: the records of an export request read out of its JSON
value, field by field, and the two handlers. What is missing or of another
type reads as its default; a span that cannot be used is counted, a log record
is not.

Key definitions: `jsonAttrToJsonValue`, `jsonAttrsToMap`, `parseNanos`,
`parseJsonLogRecord`, `parseJsonSpan`, `handleLogs`, `handleTraces`.
-/
import Logmon.Lib.Text
import Logmon.Otlp.Grpc

namespace Logmon

open Lib

variable {D : Type} (W : WireEnv D)

/-! ### Numbers in text -/

/-- `parse::<u64>`. -/
def parseU64 (s : String) : Option UInt64 := (parseNat? u64Max s.toList).map UInt64.ofNat

/-- `parse::<i64>`. -/
def parseI64 (s : String) : Option ℤ :=
  match s.toList with
  | '-' :: digits =>
    if digits.isEmpty || !digits.all Char.isDigit then none
    else if Nat.ofDigitChars 10 digits 0 ≤ 2 ^ 63 then some (-(Nat.ofDigitChars 10 digits 0 : ℤ)) else none
  | l => (parseNat? (2 ^ 63 - 1) l).map fun n => (n : ℤ)

/-- A hexadecimal digit's value, in either case. -/
def hexDigit? (c : Char) : Option ℕ :=
  if '0' ≤ c ∧ c ≤ '9' then some (c.toNat - '0'.toNat)
  else if 'a' ≤ c ∧ c ≤ 'f' then some (c.toNat - 'a'.toNat + 10)
  else if 'A' ≤ c ∧ c ≤ 'F' then some (c.toNat - 'A'.toNat + 10)
  else none

/-- The value of hexadecimal digits after those read so far. -/
def ofHexDigits : ℕ → List Char → Option ℕ
  | n, [] => some n
  | n, c :: l =>
    match hexDigit? c with
    | none => none
    | some d => ofHexDigits (n * 16 + d) l

/-- `from_str_radix` in base 16, of a type of `bits` bits; a leading `+` is
allowed. -/
def fromStrRadix16 (bits : ℕ) (s : String) : Option ℕ :=
  let digits := if s.toList.head? = some '+' then s.toList.tail else s.toList
  if digits.isEmpty then none
  else
    match ofHexDigits 0 digits with
    | none => none
    | some n => if n < 2 ^ bits then some n else none

/-- An id in hexadecimal; none if it is zero. -/
def hexToId (bits : ℕ) (hex : String) : Option ℕ :=
  match fromStrRadix16 bits hex with
  | none => none
  | some n => if n = 0 then none else some n

def hexToTraceId (hex : String) : Option ℕ := hexToId 128 hex

def hexToSpanId (hex : String) : Option ℕ := hexToId 64 hex

/-- A nanosecond timestamp from a string or a number. -/
def parseNanos (value : Json D) : UInt64 :=
  match value.asStr with
  | some s => (parseU64 s).getD 0
  | none => value.asU64.getD 0

/-! ### Values -/

/-- The text of a resource attribute's value, if it has one. -/
def extractJsonAttrStringValue (value : Json D) : Option String :=
  match (value.get "stringValue").bind Json.asStr with
  | some s => some s
  | none =>
    match value.get "intValue" with
    | some s => some ((s.asStr).getD ((s.asI64.map toString).getD (W.render s)))
    | none =>
      match (value.get "doubleValue").bind (Json.asF64 W.ofInt) with
      | some d => some (W.text d)
      | none => ((value.get "boolValue").bind Json.asBool).map fun b => if b then "true" else "false"

def extractJsonResourceAttrs (resource : Json D) : List (String × String) :=
  match ((resource.get "resource").bind (Json.get "attributes")).bind Json.asArray with
  | some attrs =>
    attrs.filterMap fun attr => do
      let key ← (← attr.get "key").asStr
      let val ← extractJsonAttrStringValue W (← attr.get "value")
      return (key, val)
  | none => []

/-- A list nested in a value: the `values` of the field. -/
def nestedValues (field : String) (value : Json D) : Option (List (Json D)) :=
  ((value.get field).bind (Json.get "values")).bind Json.asArray

/-- The scalar a value is, if it is one. -/
def jsonScalar (value : Json D) : Option (Json D) :=
  match (value.get "stringValue").bind Json.asStr with
  | some s => some (.string s)
  | none =>
    match value.get "intValue" with
    | some s =>
      match s.asStr.bind parseI64 with
      | some n => some (.int n)
      | none =>
        match s.asI64 with
        | some n => some (.int n)
        | none => some s
    | none =>
      match (value.get "doubleValue").bind (Json.asF64 W.ofInt) with
      | some d => some (.float d)
      | none => ((value.get "boolValue").bind Json.asBool).map .bool

theorem sizeOf_of_valueOf {fields : List (String × Json D)} {key : String} {v : Json D}
    (h : valueOf fields key = some v) : sizeOf v < sizeOf fields := by
  obtain ⟨q, hq, rfl⟩ := Option.map_eq_some_iff.mp h
  have hmem := List.sizeOf_lt_of_mem (List.mem_of_find?_eq_some hq)
  have hsnd : sizeOf q.2 < sizeOf q := by
    obtain ⟨k, w⟩ := q
    simp
  exact hsnd.trans hmem

theorem sizeOf_of_get {value v : Json D} {key : String} (h : value.get key = some v) : sizeOf v < sizeOf value := by
  cases value with
  | object fields =>
    have := sizeOf_of_valueOf h
    rw [Json.object.sizeOf_spec]
    omega
  | _ => cases h

theorem sizeOf_of_asArray {value v : Json D} {values : List (Json D)} (h : value.asArray = some values)
    (hv : v ∈ values) : sizeOf v < sizeOf value := by
  cases value with
  | array l =>
    obtain rfl := Option.some.inj h
    have := List.sizeOf_lt_of_mem hv
    rw [Json.array.sizeOf_spec]
    omega
  | _ => cases h

theorem sizeOf_of_nestedValues {field : String} {value v : Json D} {values : List (Json D)}
    (h : nestedValues field value = some values) (hv : v ∈ values) : sizeOf v < sizeOf value := by
  obtain ⟨inner, hinner, hvalues⟩ := Option.bind_eq_some_iff.mp h
  obtain ⟨outer, houter, hinner⟩ := Option.bind_eq_some_iff.mp hinner
  exact ((sizeOf_of_asArray hvalues hv).trans (sizeOf_of_get hinner)).trans (sizeOf_of_get houter)

/-- The key of a pair that is an object. -/
def jsonKey (kv : Json D) : Option String := (kv.get "key").bind Json.asStr

/-- A value of a request as JSON; what is of no known type reads as null. -/
def jsonAttrToJsonValue (value : Json D) : Json D :=
  match jsonScalar W value with
  | some s => s
  | none =>
    match h : nestedValues "arrayValue" value with
    | some values => .array (values.attach.map fun v =>
        have := sizeOf_of_nestedValues h v.2
        jsonAttrToJsonValue v.1)
    | none =>
      match h : nestedValues "kvlistValue" value with
      | some kvs => .object (collect (kvs.attach.filterMap fun kv =>
          match jsonKey kv.1 with
          | none => none
          | some key =>
            match hv : kv.1.get "value" with
            | none => none
            | some v =>
              have := (sizeOf_of_get hv).trans (sizeOf_of_nestedValues h kv.2)
              some (key, jsonAttrToJsonValue v)))
      | none => .null
termination_by sizeOf value

/-- An attribute, if it has a key and a value. -/
def jsonPair (attr : Json D) : Option (String × Json D) :=
  (jsonKey attr).bind fun key => (attr.get "value").map fun v => (key, jsonAttrToJsonValue W v)

theorem jsonAttrToJsonValue_eq (value : Json D) : jsonAttrToJsonValue W value =
    (jsonScalar W value).getD (((nestedValues "arrayValue" value).map fun values =>
        Json.array (values.map (jsonAttrToJsonValue W))).getD
      (((nestedValues "kvlistValue" value).map fun kvs => Json.object (collect (kvs.filterMap (jsonPair W)))).getD
        .null)) := by
  rw [jsonAttrToJsonValue]
  cases jsonScalar W value with
  | some s => rfl
  | none =>
    dsimp only
    split
    · rename_i values h
      rw [h]
      simp
    · rename_i h
      rw [h]
      split
      · rename_i kvs h
        rw [h]
        refine congrArg (fun l => Json.object (collect l)) ?_
        refine Eq.trans (List.filterMap_congr fun kv _ => ?_)
          (((List.filterMap_map (f := Subtype.val) (g := jsonPair W) (l := kvs.attach)).symm).trans
            (by rw [List.attach_map_subtype_val]))
        unfold Function.comp jsonPair
        cases jsonKey kv.1 with
        | none => rfl
        | some key =>
          dsimp only
          split
          · rename_i hv
            rw [hv]
            rfl
          · rename_i v hv
            rw [hv]
            rfl
      · rename_i h
        rw [h]
        rfl

def jsonAttrsToMap (attrs : Option (Json D)) : List (String × Json D) :=
  match attrs.bind Json.asArray with
  | some values => collect (values.filterMap (jsonPair W))
  | none => []

/-! ### Records -/

/-- An integer field, 0 where there is none. -/
def intField (field : String) (value : Json D) : ℤ := ((value.get field).bind Json.asI64).getD 0

/-- A text field, if there is one. -/
def strField? (field : String) (value : Json D) : Option String := (value.get field).bind Json.asStr

/-- A timestamp field, 0 where there is none. -/
def nanosField (field : String) (value : Json D) : UInt64 := ((value.get field).map parseNanos).getD 0

def parseJsonLogRecord (now : ℤ) (names : String × String) (record : Json D) : Option (ReceivedLog D) :=
  let message := ((record.get "body").bind fun b => (strField? "stringValue" b).or b.asStr).getD ""
  if message.isEmpty then none
  else
    some
      { timestamp := if nanosField "timeUnixNano" record > 0 then nanosToDatetime now (nanosField "timeUnixNano" record)
          else now
        level := severityToLevel ((intField "severityNumber" record + 2 ^ 31) % 2 ^ 32 - 2 ^ 31)
        message
        fullMessage := fullMessageOf message
        host := names.2
        facility := some names.1
        additionalFields := jsonAttrsToMap W (record.get "attributes")
        traceId := (strField? "traceId" record).bind hexToTraceId
        spanId := (strField? "spanId" record).bind hexToSpanId }

def mapJsonSpanKind (kind : ℤ) : SpanKind :=
  match kind with
  | 1 => .internal
  | 2 => .server
  | 3 => .client
  | 4 => .producer
  | 5 => .consumer
  | _ => .unspecified

def mapJsonSpanStatus : Option (Json D) → SpanStatus
  | none => .unset
  | some s =>
    match intField "code" s with
    | 0 => .unset
    | 1 => .ok
    | 2 => .error ((strField? "message" s).getD "")
    | _ => .unset

def mapJsonSpanEvents (now : ℤ) (events : Option (Json D)) : List (ReceivedEvent D) :=
  match events.bind Json.asArray with
  | some values =>
    values.map fun e =>
      ⟨(strField? "name" e).getD "", nanosToDatetime now (nanosField "timeUnixNano" e),
        jsonAttrsToMap W (e.get "attributes")⟩
  | none => []

def parseJsonSpan (now : ℤ) (service : String) (span : Json D) : Option (ReceivedSpan D) :=
  match (strField? "traceId" span).bind hexToTraceId with
  | none => none
  | some traceId =>
    match (strField? "spanId" span).bind hexToSpanId with
    | none => none
    | some spanId =>
      let name := (strField? "name" span).getD ""
      if name.isEmpty then none
      else
        some
          { traceId
            spanId
            parentSpanId := (strField? "parentSpanId" span).bind hexToSpanId
            startTime := nanosToDatetime now (nanosField "startTimeUnixNano" span)
            endTime := nanosToDatetime now (nanosField "endTimeUnixNano" span)
            durationMs := W.durationMs (nanosField "startTimeUnixNano" span) (nanosField "endTimeUnixNano" span)
            name
            kind := mapJsonSpanKind (intField "kind" span)
            serviceName := service
            status := mapJsonSpanStatus (span.get "status")
            attributes := jsonAttrsToMap W (span.get "attributes")
            events := mapJsonSpanEvents W now (span.get "events") }

/-! ### The handlers -/

/-- The elements of an array field; none where there is no such field. -/
def arrayField (field : String) (value : Json D) : List (Json D) := ((value.get field).bind Json.asArray).getD []

/-- The records of a body, each with its resource's names. -/
def jsonLogRecords (body : Json D) : List ((String × String) × Json D) :=
  (arrayField "resourceLogs" body).flatMap fun rl =>
    ((arrayField "scopeLogs" rl).flatMap (arrayField "logRecords")).map fun r =>
      (extractResourceAttrs (extractJsonResourceAttrs W rl), r)

def jsonSpanRecords (body : Json D) : List (String × Json D) :=
  (arrayField "resourceSpans" body).flatMap fun rs =>
    ((arrayField "scopeSpans" rs).flatMap (arrayField "spans")).map fun x =>
      ((extractResourceAttrs (extractJsonResourceAttrs W rs)).1, x)

/-- `handle_logs_inner`, at how full the channel is. A record that cannot be
used is not counted. -/
def handleLogs (now : ℤ) (usedPct : ℕ) (body : Json D) : Option (Exported (ReceivedLog D)) :=
  if backpressureThresholdPct ≤ usedPct then none
  else some ⟨(jsonLogRecords W body).filterMap fun q => parseJsonLogRecord W now q.1 q.2, 0⟩

/-- `handle_traces_inner`. -/
def handleTraces (now : ℤ) (usedPct : ℕ) (body : Json D) : Option (Exported (ReceivedSpan D)) :=
  if backpressureThresholdPct ≤ usedPct then none
  else some (.ofList ((jsonSpanRecords W body).map fun q => parseJsonSpan W now q.1 q.2))

end Logmon
