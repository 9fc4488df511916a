/-
# The JSON encoding of an export request

What an exporter posts to the HTTP endpoint: the messages of a request as
proto3 JSON, with ids in hexadecimal and enumerations as numbers. Whether a
field that holds its default is written is the encoder's choice, and so are
the text of bytes and the number a double is written as. Fields that neither
transport reads are left out.

What the handler reads in each field is what the message holds
(`hexToId_hexBytes`, `jsonAttrToJsonValue_encode`); of a value's kinds, it does
not know bytes, nor a list that has no `values` (`httpValue`).

Key definitions: `Encoder`, `encodeValue`, `encodeLogRecord`, `encodeSpan`,
`encodeLogs`, `encodeTraces`, `httpValue`.
Key theorems: `hexToId_hexBytes`, `parseI64_toString`,
`jsonAttrToJsonValue_encode`.
-/
import Logmon.Otlp.Timestamps

namespace Logmon

open Lib

variable {D : Type} {W : WireEnv D}

/-! ### The encoding -/

/-- An encoder's choices. -/
structure Encoder (W : WireEnv D) where
  /-- Whether a field that holds its default is written. -/
  defaults : Bool
  base64 : List UInt8 → String
  number : D → Json D
  /-- The number reads as the double. -/
  number_reads : ∀ d, (number d).asF64 W.ofInt = some d

variable (N : Encoder W)

/-- Whether a field is written. -/
def Encoder.writes (isDefault : Bool) : Bool := N.defaults || !isDefault

def Encoder.field (key : String) (isDefault : Bool) (v : Json D) : List (String × Json D) :=
  if N.writes isDefault then [(key, v)] else []

/-- A field of a list of elements. -/
def Encoder.listField (key : String) (values : List (Json D)) : List (String × Json D) :=
  N.field key values.isEmpty (.array values)

/-- A field of a 64-bit number. -/
def Encoder.nanosField (key : String) (n : UInt64) : List (String × Json D) :=
  N.field key (n == 0) (.string (toString n.toNat))

def Encoder.textField (key : String) (s : String) : List (String × Json D) := N.field key s.isEmpty (.string s)

def Encoder.idField (key : String) (bytes : List UInt8) : List (String × Json D) :=
  N.field key bytes.isEmpty (.string (hexBytes bytes))

def Encoder.enumField (key : String) (n : Int32) : List (String × Json D) := N.field key (n == 0) (.int n.toInt)

/-- A field of a message, if there is one. -/
def messageField (key : String) (v : Option (Json D)) : List (String × Json D) := (v.map fun v => (key, v)).toList

mutual

def encodeValue : AnyValue D → Json D
  | .string s => .object [("stringValue", .string s)]
  | .int n => .object [("intValue", .string (toString n.toInt))]
  | .double d => .object [("doubleValue", N.number d)]
  | .bool b => .object [("boolValue", .bool b)]
  | .bytes b => .object [("bytesValue", .string (N.base64 b))]
  | .array values => .object [("arrayValue", .object (N.listField "values" (encodeValues values)))]
  | .kvlist values => .object [("kvlistValue", .object (N.listField "values" (encodeKeyValues values)))]
  | .unset => .object []

def encodeValues : List (AnyValue D) → List (Json D)
  | [] => []
  | v :: values => encodeValue v :: encodeValues values

def encodeKeyValues : List (String × Option (AnyValue D)) → List (Json D)
  | [] => []
  | (key, none) :: values => .object (N.textField "key" key) :: encodeKeyValues values
  | (key, some v) :: values => .object (N.textField "key" key ++ [("value", encodeValue v)]) :: encodeKeyValues values

end

def encodeEvent (e : OtlpEvent D) : Json D :=
  .object (N.nanosField "timeUnixNano" e.timeUnixNano ++ N.textField "name" e.name ++
    N.listField "attributes" (encodeKeyValues N e.attributes))

def encodeStatus (s : OtlpStatus) : Json D :=
  .object (N.textField "message" s.message ++ N.enumField "code" s.code)

def encodeSpan (x : OtlpSpan D) : Json D :=
  .object (N.idField "traceId" x.traceId ++ N.idField "spanId" x.spanId ++ N.idField "parentSpanId" x.parentSpanId ++
    N.textField "name" x.name ++ N.enumField "kind" x.kind ++
    N.nanosField "startTimeUnixNano" x.startTimeUnixNano ++ N.nanosField "endTimeUnixNano" x.endTimeUnixNano ++
    N.listField "attributes" (encodeKeyValues N x.attributes) ++ N.listField "events" (x.events.map (encodeEvent N)) ++
    messageField "status" (x.status.map (encodeStatus N)))

def encodeLogRecord (r : OtlpLogRecord D) : Json D :=
  .object (N.nanosField "timeUnixNano" r.timeUnixNano ++ N.enumField "severityNumber" r.severityNumber ++
    messageField "body" (r.body.map (encodeValue N)) ++ N.listField "attributes" (encodeKeyValues N r.attributes) ++
    N.idField "traceId" r.traceId ++ N.idField "spanId" r.spanId)

def encodeResource (attrs : List (KeyValue D)) : Json D :=
  .object (N.listField "attributes" (encodeKeyValues N attrs))

def encodeResourceLogs (rl : ResourceLogs D) : Json D :=
  .object (messageField "resource" (rl.resource.map (encodeResource N)) ++
    N.listField "scopeLogs" (rl.scopeLogs.map fun records =>
      .object (N.listField "logRecords" (records.map (encodeLogRecord N)))))

def encodeResourceSpans (rs : ResourceSpans D) : Json D :=
  .object (messageField "resource" (rs.resource.map (encodeResource N)) ++
    N.listField "scopeSpans" (rs.scopeSpans.map fun spans =>
      .object (N.listField "spans" (spans.map (encodeSpan N)))))

/-- An `ExportLogsServiceRequest`. -/
def encodeLogs (req : List (ResourceLogs D)) : Json D :=
  .object (N.listField "resourceLogs" (req.map (encodeResourceLogs N)))

/-- An `ExportTraceServiceRequest`. -/
def encodeTraces (req : List (ResourceSpans D)) : Json D :=
  .object (N.listField "resourceSpans" (req.map (encodeResourceSpans N)))

/-! ### Reading fields -/

variable {N}

theorem valueOf_field (key : String) (isDefault : Bool) (v : Json D) (k : String) :
    valueOf (N.field key isDefault v) k = if key = k then (if N.writes isDefault then some v else none) else none := by
  unfold Encoder.field
  by_cases h : N.writes isDefault = true
  · rw [if_pos h, if_pos h, valueOf_cons, valueOf_nil]
  · rw [if_neg h, if_neg h, valueOf_nil, ite_self]

theorem valueOf_messageField (key : String) (v : Option (Json D)) (k : String) :
    valueOf (messageField key v) k = if key = k then v else none := by
  unfold messageField
  cases v with
  | none => simp
  | some v => rw [Option.map_some, Option.toList_some, valueOf_cons, valueOf_nil]

/-- The object holds the field as the encoder writes it. -/
def Written (N : Encoder W) (j : Json D) (key : String) (isDefault : Bool) (v : Json D) : Prop :=
  j.get key = if N.writes isDefault then some v else none

variable {j : Json D} {key : String}

theorem writes_false (N : Encoder W) : N.writes false = true := by
  unfold Encoder.writes
  exact Bool.or_true _

theorem strField_of_written {s : String} (h : Written N j key s.isEmpty (.string s)) :
    (strField? key j).getD "" = s := by
  unfold strField?
  rw [h]
  by_cases hw : N.writes s.isEmpty = true
  · rw [if_pos hw]
    rfl
  · have hempty : s = "" := by
      cases he : s.isEmpty with
      | false => rw [he] at hw; exact absurd (writes_false N) hw
      | true => simpa using he
    rw [if_neg hw, hempty]
    rfl

theorem nanosField_of_written {n : UInt64} (h : Written N j key (n == 0) (.string (toString n.toNat))) :
    nanosField key j = n := by
  refine nanosField_eq ?_
  unfold NanosIn
  rw [h]
  by_cases hw : N.writes (n == 0) = true
  · rw [if_pos hw]
    exact .inl rfl
  · refine .inr (.inr ⟨if_neg hw, ?_⟩)
    cases hn : n == 0 with
    | false => rw [hn] at hw; exact absurd (writes_false N) hw
    | true => exact eq_of_beq hn

theorem intField_of_written {n : Int32} (h : Written N j key (n == 0) (.int n.toInt)) : intField key j = n.toInt := by
  have hlo := Int32.le_toInt n
  have hhi := Int32.toInt_lt n
  unfold intField
  rw [h]
  by_cases hw : N.writes (n == 0) = true
  · rw [if_pos hw]
    show (if -2 ^ 63 ≤ n.toInt ∧ n.toInt < 2 ^ 63 then some n.toInt else none).getD 0 = _
    rw [if_pos ⟨by omega, by omega⟩, Option.getD_some]
  · have hzero : n = 0 := by
      cases hn : n == 0 with
      | false => rw [hn] at hw; exact absurd (writes_false N) hw
      | true => exact eq_of_beq hn
    rw [if_neg hw, hzero]
    rfl

theorem list_of_written {values : List (Json D)} (h : Written N j key values.isEmpty (.array values)) :
    ((j.get key).bind Json.asArray).getD [] = values := by
  rw [h]
  by_cases hw : N.writes values.isEmpty = true
  · rw [if_pos hw]
    rfl
  · have hempty : values = [] := by
      cases he : values.isEmpty with
      | false => rw [he] at hw; exact absurd (writes_false N) hw
      | true => simpa using he
    rw [if_neg hw, hempty]
    rfl

/-! ### Ids -/

theorem hexDigit_digitChar {d : ℕ} (h : d < 16) : hexDigit? (Nat.digitChar d) = some d := by
  have hall : ∀ d < 16, hexDigit? (Nat.digitChar d) = some d := by decide
  exact hall d h

theorem ofHexDigits_bytes : ∀ (bytes : List UInt8) (n : ℕ),
    ofHexDigits n (bytes.flatMap fun b => [Nat.digitChar (b.toNat / 16), Nat.digitChar (b.toNat % 16)]) =
      some (bytes.foldl (fun n b => n * 256 + b.toNat) n)
  | [], n => rfl
  | b :: bytes, n => by
    have hb := b.toNat_lt
    have hstep : (n * 16 + b.toNat / 16) * 16 + b.toNat % 16 = n * 256 + b.toNat := by omega
    rw [List.flatMap_cons, List.cons_append, List.singleton_append, ofHexDigits, hexDigit_digitChar (by omega)]
    simp only
    rw [ofHexDigits, hexDigit_digitChar (by omega)]
    simp only
    rw [hstep, ofHexDigits_bytes bytes, List.foldl_cons]

theorem beNat_lt (bytes : List UInt8) : beNat bytes < 256 ^ bytes.length := by
  induction bytes using List.reverseRecOn with
  | nil => exact Nat.one_pos
  | append_singleton bytes b ih =>
    have hb := b.toNat_lt
    unfold beNat at ih ⊢
    rw [List.foldl_concat, List.length_append, List.length_singleton, pow_succ]
    omega

/-- **An id in hexadecimal reads as its bytes do.** -/
theorem hexToId_hexBytes {width : ℕ} (hwidth : 0 < width) {bytes : List UInt8}
    (h : bytes = [] ∨ bytes.length = width) : hexToId (8 * width) (hexBytes bytes) = bytesToId width bytes := by
  rcases h with rfl | h
  · rw [bytesToId, if_pos (by simp only [List.length_nil]; omega)]
    rfl
  · have hlist : (hexBytes bytes).toList =
        bytes.flatMap fun b => [Nat.digitChar (b.toNat / 16), Nat.digitChar (b.toNat % 16)] := String.toList_ofList
    obtain ⟨b, rest, rfl⟩ : ∃ b rest, bytes = b :: rest := List.exists_cons_of_length_pos (by omega)
    have hplus : (hexBytes (b :: rest)).toList.head? ≠ some '+' := by
      rw [hlist, List.flatMap_cons]
      have hall : ∀ d < 16, Nat.digitChar d ≠ '+' := by decide
      exact fun hc => hall _ (by have := b.toNat_lt; omega) (Option.some.inj hc)
    have hlt : beNat (b :: rest) < 2 ^ (8 * width) := by
      rw [pow_mul]
      exact h ▸ beNat_lt (b :: rest)
    have hread : fromStrRadix16 (8 * width) (hexBytes (b :: rest)) = some (beNat (b :: rest)) := by
      unfold fromStrRadix16
      dsimp only
      rw [if_neg hplus, hlist, if_neg (by simp), ofHexDigits_bytes]
      exact if_pos hlt
    rw [hexToId, hread, bytesToId, if_neg fun hne => hne h]

theorem id_of_written {width : ℕ} (hwidth : 0 < width) {bytes : List UInt8} (hlen : bytes = [] ∨ bytes.length = width)
    (h : Written N j key bytes.isEmpty (.string (hexBytes bytes))) :
    (strField? key j).bind (hexToId (8 * width)) = bytesToId width bytes := by
  unfold strField?
  rw [h]
  by_cases hw : N.writes bytes.isEmpty = true
  · rw [if_pos hw]
    exact hexToId_hexBytes hwidth hlen
  · have hempty : bytes = [] := by
      cases he : bytes.isEmpty with
      | false => rw [he] at hw; exact absurd (writes_false N) hw
      | true => simpa using he
    rw [if_neg hw, hempty, bytesToId, if_pos (by simp only [List.length_nil]; omega)]
    rfl

/-! ### Values -/

theorem parseI64_toString {n : ℤ} (hlo : -2 ^ 63 ≤ n) (hhi : n < 2 ^ 63) : parseI64 (toString n) = some n := by
  cases n with
  | ofNat m =>
    have hm : m ≤ 2 ^ 63 - 1 := by
      have : (m : ℤ) < 2 ^ 63 := hhi
      omega
    have hread := parseNat?_toString hm
    have htext : (toString (Int.ofNat m)).toList = (toString m).toList := rfl
    unfold parseI64
    rw [htext]
    split
    · rename_i digits hd
      have := @isDigit_of_mem_toString m '-' (by rw [hd]; exact List.mem_cons_self)
      simp at this
    · rw [hread]
      rfl
  | negSucc m =>
    have hm : m + 1 ≤ 2 ^ 63 := by
      have : -2 ^ 63 ≤ -((m : ℤ) + 1) := by rw [← Int.negSucc_eq]; exact hlo
      omega
    have htext : (toString (Int.negSucc m)).toList = '-' :: (toString (m + 1)).toList := by
      show ("-" ++ toString (m + 1)).toList = _
      rw [String.toList_append]
      rfl
    have hall : (toString (m + 1)).toList.all Char.isDigit = true :=
      List.all_eq_true.mpr fun c hc => isDigit_of_mem_toString hc
    have hval : Nat.ofDigitChars 10 (toString (m + 1)).toList 0 = m + 1 := by simp
    have hne : (toString (m + 1)).toList.isEmpty = false := by
      rw [List.isEmpty_eq_false_iff]
      exact toString_ne_nil _
    unfold parseI64
    rw [htext]
    simp only [hne, hall, hval]
    rw [if_neg (by simp), if_pos hm]
    rfl

variable (N)

mutual

/-- What the handler makes of a value. -/
def httpValue : AnyValue D → Json D
  | .string s => .string s
  | .int n => .int n.toInt
  | .double d => .float d
  | .bool b => .bool b
  | .bytes _ => .null
  | .array values => if N.writes values.isEmpty then .array (httpValues values) else .null
  | .kvlist values => if N.writes values.isEmpty then .object (collect (httpPairs values)) else .null
  | .unset => .null

def httpValues : List (AnyValue D) → List (Json D)
  | [] => []
  | v :: values => httpValue v :: httpValues values

/-- A pair whose key is not written is passed over. -/
def httpPairs : List (String × Option (AnyValue D)) → List (String × Json D)
  | [] => []
  | (_, none) :: values => httpPairs values
  | (key, some v) :: values =>
    if N.writes key.isEmpty then (key, httpValue v) :: httpPairs values else httpPairs values

end

theorem isEmpty_encodeValues (values : List (AnyValue D)) : (encodeValues N values).isEmpty = values.isEmpty := by
  cases values <;> simp [encodeValues]

theorem isEmpty_encodeKeyValues (values : List (KeyValue D)) : (encodeKeyValues N values).isEmpty = values.isEmpty := by
  match values with
  | [] => simp [encodeKeyValues]
  | (_, none) :: _ => simp [encodeKeyValues]
  | (_, some _) :: _ => simp [encodeKeyValues]

variable {N}

theorem get_single (key : String) (v : Json D) (k : String) :
    (Json.object [(key, v)]).get k = if key = k then some v else none := valueOf_cons (key, v) [] k

/-- The `values` of the field of a value with one field. -/
theorem nestedValues_single (field key : String) (values : List (Json D)) :
    nestedValues field (.object [(key, .object (N.listField "values" values))]) =
      if key = field then (if N.writes values.isEmpty then some values else none) else none := by
  unfold nestedValues
  rw [get_single]
  by_cases hk : key = field
  · rw [if_pos hk, if_pos hk, Option.bind_some]
    show (valueOf (N.listField "values" values) "values").bind Json.asArray = _
    rw [Encoder.listField, valueOf_field, if_pos rfl]
    by_cases hw : N.writes values.isEmpty = true
    · rw [if_pos hw, if_pos hw]
      rfl
    · rw [if_neg hw, if_neg hw]
      rfl
  · rw [if_neg hk, if_neg hk]
    rfl

/-- A value that is no scalar of a known kind. -/
theorem jsonScalar_single {key : String} (hs : key ≠ "stringValue") (hi : key ≠ "intValue") (hd : key ≠ "doubleValue")
    (hb : key ≠ "boolValue") (v : Json D) : jsonScalar W (.object [(key, v)]) = none := by
  unfold jsonScalar
  simp [get_single, hs, hi, hd, hb]

theorem jsonKey_pair (key : String) (rest : List (String × Json D)) (hrest : valueOf rest "key" = none) :
    jsonKey (.object (N.textField "key" key ++ rest)) = if N.writes key.isEmpty then some key else none := by
  unfold jsonKey
  show (valueOf (N.textField "key" key ++ rest) "key").bind Json.asStr = _
  rw [valueOf_append, Encoder.textField, valueOf_field, if_pos rfl, hrest, Option.or_none]
  by_cases hw : N.writes key.isEmpty = true
  · rw [if_pos hw, if_pos hw]
    rfl
  · rw [if_neg hw, if_neg hw]
    rfl

theorem value_pair (key : String) (v : Option (Json D)) :
    (Json.object (N.textField "key" key ++ messageField "value" v)).get "value" = v := by
  show valueOf (N.textField "key" key ++ messageField "value" v) "value" = _
  rw [valueOf_append, Encoder.textField, valueOf_field, if_neg (by decide), valueOf_messageField, if_pos rfl]
  rfl

/-- A pair as the handler reads it. -/
theorem jsonPair_encode (key : String) (v : Option (Json D)) :
    jsonPair W (.object (N.textField "key" key ++ messageField "value" v)) =
      if N.writes key.isEmpty then v.map fun v => (key, jsonAttrToJsonValue W v) else none := by
  unfold jsonPair
  rw [jsonKey_pair key _ (by rw [valueOf_messageField, if_neg (by decide)]), value_pair]
  by_cases hw : N.writes key.isEmpty = true
  · rw [if_pos hw, if_pos hw]
    rfl
  · rw [if_neg hw, if_neg hw]
    rfl

mutual

/-- **A value's encoding reads as `httpValue`.** -/
theorem jsonAttrToJsonValue_encode : ∀ v : AnyValue D, jsonAttrToJsonValue W (encodeValue N v) = httpValue N v
  | .string s => by
    rw [jsonAttrToJsonValue_eq, encodeValue, httpValue]
    simp [jsonScalar, get_single, Json.asStr]
  | .int n => by
    have hscalar : jsonScalar W (.object [("intValue", .string (toString n.toInt))]) = some (.int n.toInt) := by
      unfold jsonScalar
      rw [get_single, get_single, if_neg (by decide), if_pos rfl]
      show (match parseI64 (toString n.toInt) with
        | some n => some (Json.int n)
        | none => _) = _
      rw [parseI64_toString n.le_toInt n.toInt_lt]
    rw [jsonAttrToJsonValue_eq, encodeValue, httpValue, hscalar]
    rfl
  | .double d => by
    rw [jsonAttrToJsonValue_eq, encodeValue, httpValue]
    simp [jsonScalar, get_single, N.number_reads]
  | .bool b => by
    rw [jsonAttrToJsonValue_eq, encodeValue, httpValue]
    simp [jsonScalar, get_single, Json.asBool]
  | .bytes b => by
    rw [jsonAttrToJsonValue_eq, encodeValue, httpValue,
      jsonScalar_single (by decide) (by decide) (by decide) (by decide)]
    simp [nestedValues, get_single]
  | .array values => by
    rw [jsonAttrToJsonValue_eq, encodeValue, httpValue,
      jsonScalar_single (by decide) (by decide) (by decide) (by decide), nestedValues_single, nestedValues_single,
      if_pos rfl, if_neg (show ¬ "arrayValue" = "kvlistValue" by decide), isEmpty_encodeValues]
    by_cases hw : N.writes values.isEmpty = true
    · simp [hw, map_encodeValues values]
    · simp [hw]
  | .kvlist values => by
    rw [jsonAttrToJsonValue_eq, encodeValue, httpValue,
      jsonScalar_single (by decide) (by decide) (by decide) (by decide), nestedValues_single, nestedValues_single,
      if_neg (show ¬ "kvlistValue" = "arrayValue" by decide), if_pos rfl, isEmpty_encodeKeyValues]
    by_cases hw : N.writes values.isEmpty = true
    · simp [hw, filterMap_encodeKeyValues values]
    · simp [hw]
  | .unset => by
    rw [jsonAttrToJsonValue_eq, encodeValue, httpValue]
    simp [jsonScalar, nestedValues, Json.get]

theorem map_encodeValues : ∀ values : List (AnyValue D),
    (encodeValues N values).map (jsonAttrToJsonValue W) = httpValues N values
  | [] => by rw [encodeValues, httpValues, List.map_nil]
  | v :: values => by
    rw [encodeValues, httpValues, List.map_cons, jsonAttrToJsonValue_encode v, map_encodeValues values]

theorem filterMap_encodeKeyValues : ∀ kvs : List (KeyValue D),
    (encodeKeyValues N kvs).filterMap (jsonPair W) = httpPairs N kvs
  | [] => by rw [encodeKeyValues, httpPairs, List.filterMap_nil]
  | (key, none) :: kvs => by
    have hpair := @jsonPair_encode _ W N key none
    rw [messageField, Option.map_none, Option.toList_none, List.append_nil, Option.map_none, ite_self] at hpair
    rw [encodeKeyValues, httpPairs, List.filterMap_cons_none hpair, filterMap_encodeKeyValues kvs]
  | (key, some v) :: kvs => by
    have hpair := @jsonPair_encode _ W N key (some (encodeValue N v))
    rw [messageField, Option.map_some, Option.toList_some, Option.map_some, jsonAttrToJsonValue_encode v] at hpair
    rw [encodeKeyValues, httpPairs]
    by_cases hw : N.writes key.isEmpty = true
    · rw [if_pos hw] at hpair
      rw [if_pos hw, List.filterMap_cons_some hpair, filterMap_encodeKeyValues kvs]
    · rw [if_neg hw] at hpair
      rw [if_neg hw, List.filterMap_cons_none hpair, filterMap_encodeKeyValues kvs]

end

/-- A map of attributes as the handler reads it. -/
theorem attrs_of_written {kvs : List (KeyValue D)}
    (h : Written N j "attributes" (encodeKeyValues N kvs).isEmpty (.array (encodeKeyValues N kvs))) :
    jsonAttrsToMap W (j.get "attributes") = collect (httpPairs N kvs) := by
  have hlist := list_of_written h
  rw [← filterMap_encodeKeyValues]
  unfold jsonAttrsToMap
  cases hb : (j.get "attributes").bind Json.asArray with
  | none =>
    rw [hb, Option.getD_none] at hlist
    rw [← hlist]
    rfl
  | some values =>
    rw [hb, Option.getD_some] at hlist
    rw [hlist]

end Logmon
