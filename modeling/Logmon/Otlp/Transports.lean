/-
# The two OTLP transports

An export request, over gRPC as it is and over HTTP as its JSON encoding. The
two services read ids, names, times, kinds and statuses alike, and part where
the HTTP handler misses what the gRPC service does: it knows no bytes values,
takes a value it does not know for null where gRPC passes it over, reads a log
record's body only if it is a text, and does not count the log records it
drops. So the two agree on a request exactly when it holds nothing of these
(`transports_agree_iff`).

Key definitions: `IdsFit`, `LogAlike`, `OtlpSpan.Usable`, `SpanAlike`.
Key theorems: `httpLog_eq`, `httpSpan_eq`, `grpcLog_agrees_iff`,
`grpcSpan_agrees_iff`, `transports_agree_iff`.
-/
import Logmon.Otlp.Agree

namespace Logmon

open Lib

variable {D : Type} {W : WireEnv D} {N : Encoder W}

/-- The ids of a log record have the lengths the protocol gives them, or are
not there. -/
def OtlpLogRecord.IdsFit (r : OtlpLogRecord D) : Prop :=
  (r.traceId = [] ∨ r.traceId.length = 16) ∧ (r.spanId = [] ∨ r.spanId.length = 8)

def OtlpSpan.IdsFit (x : OtlpSpan D) : Prop :=
  (x.traceId = [] ∨ x.traceId.length = 16) ∧ (x.spanId = [] ∨ x.spanId.length = 8) ∧
    (x.parentSpanId = [] ∨ x.parentSpanId.length = 8)

/-! ### Fields of the encoded messages -/

theorem written_listField (key : String) (values : List (Json D)) :
    Written N (.object (N.listField key values)) key values.isEmpty (.array values) := by
  show valueOf (N.listField key values) key = _
  rw [Encoder.listField, valueOf_field, if_pos rfl]

theorem arrayField_of_written {j : Json D} {key : String} {values : List (Json D)}
    (h : Written N j key values.isEmpty (.array values)) : arrayField key j = values := list_of_written h

/-- **What the handler reads of an encoded log record.** -/
theorem httpLog_eq {now : ℤ} {names : String × String} {r : OtlpLogRecord D} (hids : r.IdsFit) :
    parseJsonLogRecord W now names (encodeLogRecord N r) =
      match r.body with
      | some (.string message) =>
        if message.isEmpty then none
        else
          some
            { timestamp := if r.timeUnixNano > 0 then nanosToDatetime now r.timeUnixNano else now
              level := severityToLevel r.severityNumber.toInt
              message
              fullMessage := fullMessageOf message
              host := names.2
              facility := some names.1
              additionalFields := collect (httpPairs N r.attributes)
              traceId := bytesToTraceId r.traceId
              spanId := bytesToSpanId r.spanId }
      | _ => none := by
  have hget : ∀ key, (encodeLogRecord N r).get key = valueOf (N.nanosField "timeUnixNano" r.timeUnixNano ++
      N.enumField "severityNumber" r.severityNumber ++ messageField "body" (r.body.map (encodeValue N)) ++
      N.listField "attributes" (encodeKeyValues N r.attributes) ++ N.idField "traceId" r.traceId ++
      N.idField "spanId" r.spanId) key := fun _ => rfl
  simp only [Encoder.nanosField, Encoder.enumField, Encoder.listField, Encoder.idField, valueOf_append, valueOf_field,
    valueOf_messageField] at hget
  have htime : nanosField "timeUnixNano" (encodeLogRecord N r) = r.timeUnixNano :=
    nanosField_of_written (N := N) ((hget _).trans (by simp))
  have hseverity : intField "severityNumber" (encodeLogRecord N r) = r.severityNumber.toInt :=
    intField_of_written (N := N) ((hget _).trans (by simp))
  have hattrs : jsonAttrsToMap W ((encodeLogRecord N r).get "attributes") = collect (httpPairs N r.attributes) :=
    attrs_of_written (N := N) ((hget _).trans (by simp))
  have htrace : (strField? "traceId" (encodeLogRecord N r)).bind hexToTraceId = bytesToTraceId r.traceId :=
    id_of_written (N := N) (by decide) hids.1 ((hget _).trans (by simp))
  have hspan : (strField? "spanId" (encodeLogRecord N r)).bind hexToSpanId = bytesToSpanId r.spanId :=
    id_of_written (N := N) (by decide) hids.2 ((hget _).trans (by simp))
  have hbody : (encodeLogRecord N r).get "body" = r.body.map (encodeValue N) := (hget _).trans (by simp)
  have hlo := Int32.le_toInt r.severityNumber
  have hhi := Int32.toInt_lt r.severityNumber
  have hwrap : (r.severityNumber.toInt + 2 ^ 31) % 2 ^ 32 - 2 ^ 31 = r.severityNumber.toInt := by omega
  unfold parseJsonLogRecord
  rw [htime, hseverity, hattrs, htrace, hspan, hbody, hwrap]
  cases r.body with
  | none => rfl
  | some v =>
    cases v with
    | string message => simp [encodeValue, strField?, get_single, Json.asStr]
    | unset => simp [encodeValue, strField?, Json.get, Json.asStr]
    | _ => simp [encodeValue, strField?, get_single, Json.asStr]

/-- What the handler reads of an encoded event. -/
theorem httpEvent_eq (now : ℤ) (e : OtlpEvent D) :
    (⟨(strField? "name" (encodeEvent N e)).getD "", nanosToDatetime now (nanosField "timeUnixNano" (encodeEvent N e)),
      jsonAttrsToMap W ((encodeEvent N e).get "attributes")⟩ : ReceivedEvent D) =
        ⟨e.name, nanosToDatetime now e.timeUnixNano, collect (httpPairs N e.attributes)⟩ := by
  have hget : ∀ key, (encodeEvent N e).get key = valueOf (N.nanosField "timeUnixNano" e.timeUnixNano ++
      N.textField "name" e.name ++ N.listField "attributes" (encodeKeyValues N e.attributes)) key := fun _ => rfl
  simp only [Encoder.nanosField, Encoder.textField, Encoder.listField, valueOf_append, valueOf_field] at hget
  have htime : nanosField "timeUnixNano" (encodeEvent N e) = e.timeUnixNano :=
    nanosField_of_written (N := N) ((hget _).trans (by simp))
  have hname : (strField? "name" (encodeEvent N e)).getD "" = e.name :=
    strField_of_written (N := N) ((hget _).trans (by simp))
  have hattrs : jsonAttrsToMap W ((encodeEvent N e).get "attributes") = collect (httpPairs N e.attributes) :=
    attrs_of_written (N := N) ((hget _).trans (by simp))
  rw [htime, hname, hattrs]

/-- A status is read as it is. -/
theorem httpStatus_eq (s : Option OtlpStatus) : mapJsonSpanStatus (s.map (encodeStatus N)) = mapSpanStatus s := by
  cases s with
  | none => rfl
  | some s =>
    have hget : ∀ key, (encodeStatus N s).get key =
        valueOf (N.textField "message" s.message ++ N.enumField "code" s.code) key := fun _ => rfl
    simp only [Encoder.textField, Encoder.enumField, valueOf_append, valueOf_field] at hget
    have hmessage : (strField? "message" (encodeStatus N s)).getD "" = s.message :=
      strField_of_written (N := N) ((hget _).trans (by simp))
    have hcode : intField "code" (encodeStatus N s) = s.code.toInt :=
      intField_of_written (N := N) ((hget _).trans (by simp))
    rw [Option.map_some, mapJsonSpanStatus, hmessage, hcode]
    rfl

/-- **What the handler reads of an encoded span.** -/
theorem httpSpan_eq {now : ℤ} {service : String} {x : OtlpSpan D} (hids : x.IdsFit) :
    parseJsonSpan W now service (encodeSpan N x) =
      match bytesToTraceId x.traceId with
      | none => none
      | some traceId =>
        match bytesToSpanId x.spanId with
        | none => none
        | some spanId =>
          if x.name.isEmpty then none
          else
            some
              { traceId
                spanId
                parentSpanId := bytesToSpanId x.parentSpanId
                startTime := nanosToDatetime now x.startTimeUnixNano
                endTime := nanosToDatetime now x.endTimeUnixNano
                durationMs := W.durationMs x.startTimeUnixNano x.endTimeUnixNano
                name := x.name
                kind := mapSpanKind x.kind
                serviceName := service
                status := mapSpanStatus x.status
                attributes := collect (httpPairs N x.attributes)
                events := x.events.map fun e =>
                  ⟨e.name, nanosToDatetime now e.timeUnixNano, collect (httpPairs N e.attributes)⟩ } := by
  have hget : ∀ key, (encodeSpan N x).get key = valueOf (N.idField "traceId" x.traceId ++ N.idField "spanId" x.spanId ++
      N.idField "parentSpanId" x.parentSpanId ++ N.textField "name" x.name ++ N.enumField "kind" x.kind ++
      N.nanosField "startTimeUnixNano" x.startTimeUnixNano ++ N.nanosField "endTimeUnixNano" x.endTimeUnixNano ++
      N.listField "attributes" (encodeKeyValues N x.attributes) ++ N.listField "events" (x.events.map (encodeEvent N)) ++
      messageField "status" (x.status.map (encodeStatus N))) key := fun _ => rfl
  simp only [Encoder.nanosField, Encoder.enumField, Encoder.listField, Encoder.idField, Encoder.textField,
    valueOf_append, valueOf_field, valueOf_messageField] at hget
  have htrace : (strField? "traceId" (encodeSpan N x)).bind hexToTraceId = bytesToTraceId x.traceId :=
    id_of_written (N := N) (by decide) hids.1 ((hget _).trans (by simp))
  have hspan : (strField? "spanId" (encodeSpan N x)).bind hexToSpanId = bytesToSpanId x.spanId :=
    id_of_written (N := N) (by decide) hids.2.1 ((hget _).trans (by simp))
  have hparent : (strField? "parentSpanId" (encodeSpan N x)).bind hexToSpanId = bytesToSpanId x.parentSpanId :=
    id_of_written (N := N) (by decide) hids.2.2 ((hget _).trans (by simp))
  have hname : (strField? "name" (encodeSpan N x)).getD "" = x.name :=
    strField_of_written (N := N) ((hget _).trans (by simp))
  have hkind : intField "kind" (encodeSpan N x) = x.kind.toInt :=
    intField_of_written (N := N) ((hget _).trans (by simp))
  have hstart : nanosField "startTimeUnixNano" (encodeSpan N x) = x.startTimeUnixNano :=
    nanosField_of_written (N := N) ((hget _).trans (by simp))
  have hend : nanosField "endTimeUnixNano" (encodeSpan N x) = x.endTimeUnixNano :=
    nanosField_of_written (N := N) ((hget _).trans (by simp))
  have hattrs : jsonAttrsToMap W ((encodeSpan N x).get "attributes") = collect (httpPairs N x.attributes) :=
    attrs_of_written (N := N) ((hget _).trans (by simp))
  have hstatus : (encodeSpan N x).get "status" = x.status.map (encodeStatus N) := (hget _).trans (by simp)
  have hevents : mapJsonSpanEvents W now ((encodeSpan N x).get "events") = x.events.map fun e =>
      ⟨e.name, nanosToDatetime now e.timeUnixNano, collect (httpPairs N e.attributes)⟩ := by
    have hlist : arrayField "events" (encodeSpan N x) = x.events.map (encodeEvent N) :=
      arrayField_of_written (N := N) ((hget _).trans (by simp))
    have hmap : mapJsonSpanEvents W now ((encodeSpan N x).get "events") =
        (arrayField "events" (encodeSpan N x)).map fun e =>
          ⟨(strField? "name" e).getD "", nanosToDatetime now (nanosField "timeUnixNano" e),
            jsonAttrsToMap W (e.get "attributes")⟩ := by
      unfold mapJsonSpanEvents arrayField
      cases ((encodeSpan N x).get "events").bind Json.asArray <;> rfl
    rw [hmap, hlist, List.map_map]
    exact List.map_congr_left fun e _ => httpEvent_eq now e
  unfold parseJsonSpan
  rw [htrace, hspan, hparent, hname, hkind, hstart, hend, hattrs, hstatus, hevents, httpStatus_eq]
  rfl

/-! ### One record -/

/-- The names the handler reads of an encoded resource. -/
def httpNames (N : Encoder W) (resource : Option (List (KeyValue D))) : String × String :=
  extractResourceAttrs
    (((nameTexts W (resource.getD [])).filter fun q => N.writes q.1.isEmpty && !q.2.2).map fun q => (q.1, q.2.1))

theorem resourceNames_eq (resource : Option (List (KeyValue D))) :
    resourceNames W resource = extractResourceAttrs (keyValuesToPairs W (resource.getD [])) := by
  cases resource <;> rfl

theorem service_agrees_iff (resource : Option (List (KeyValue D))) :
    (resourceNames W resource).1 = (httpNames N resource).1 ↔ NamedAlike W "service.name" (resource.getD []) := by
  rw [resourceNames_eq, httpNames, extractResourceAttrs_eq, extractResourceAttrs_eq]
  exact namedAlike_iff (by decide) _

theorem host_agrees_iff (resource : Option (List (KeyValue D))) :
    (resourceNames W resource).2 = (httpNames N resource).2 ↔ NamedAlike W "host.name" (resource.getD []) := by
  rw [resourceNames_eq, httpNames, extractResourceAttrs_eq, extractResourceAttrs_eq]
  exact namedAlike_iff (by decide) _

/-- A log record, of a resource, that both transports deliver alike: its body
is a text, its attributes are plain, and the resource's names are no bytes. -/
structure LogAlike (N : Encoder W) (resource : Option (List (KeyValue D))) (r : OtlpLogRecord D) : Prop where
  text : ∃ s, r.body = some (.string s) ∧ s ≠ ""
  attributes : PlainPairs N r.attributes
  service : NamedAlike W "service.name" (resource.getD [])
  host : NamedAlike W "host.name" (resource.getD [])

/-- **One log record** is delivered alike by both transports, and by both. -/
theorem grpcLog_agrees_iff (now : ℤ) (resource : Option (List (KeyValue D))) {r : OtlpLogRecord D} (hids : r.IdsFit) :
    ((grpcLog W now (resourceNames W resource) r).isSome ∧
      (parseJsonLogRecord W now (httpNames N resource) (encodeLogRecord N r)).isSome ∧
      grpcLog W now (resourceNames W resource) r =
        parseJsonLogRecord W now (httpNames N resource) (encodeLogRecord N r)) ↔ LogAlike N resource r := by
  by_cases htext : ∃ s, r.body = some (.string s) ∧ s ≠ ""
  · obtain ⟨s, hs, hne⟩ := htext
    have hempty : s.isEmpty = false := by simpa using hne
    rw [httpLog_eq hids, grpcLog, hs]
    simp only [Option.bind_some, formatAnyValue, Option.getD_some, hempty, Bool.false_eq_true, if_false,
      Option.isSome_some, true_and, Option.some.injEq]
    constructor
    · intro h
      exact ⟨⟨s, hs, hne⟩, (attrs_agree_iff _).mp (congrArg ReceivedLog.additionalFields h),
        (service_agrees_iff _).mp (Option.some.inj (congrArg ReceivedLog.facility h)),
        (host_agrees_iff _).mp (congrArg ReceivedLog.host h)⟩
    · intro h
      rw [(attrs_agree_iff _).mpr h.attributes, (service_agrees_iff resource).mpr h.service,
        (host_agrees_iff resource).mpr h.host]
  · refine iff_of_false (fun h => ?_) fun h => htext h.text
    have hnone : parseJsonLogRecord W now (httpNames N resource) (encodeLogRecord N r) = none := by
      rw [httpLog_eq hids]
      cases hb : r.body with
      | none => rfl
      | some v =>
        cases v with
        | string s =>
          have hs : s = "" := by
            by_contra hne
            exact htext ⟨s, hb, hne⟩
          rw [hs]
          rfl
        | _ => rfl
    rw [hnone] at h
    cases h.2.1

/-- A span that is not malformed. -/
def OtlpSpan.Usable (x : OtlpSpan D) : Prop :=
  (bytesToTraceId x.traceId).isSome ∧ (bytesToSpanId x.spanId).isSome ∧ x.name ≠ ""

/-- A span, of a resource, that both transports deliver alike. -/
structure SpanAlike (N : Encoder W) (resource : Option (List (KeyValue D))) (x : OtlpSpan D) : Prop where
  attributes : PlainPairs N x.attributes
  events : ∀ e ∈ x.events, PlainPairs N e.attributes
  service : NamedAlike W "service.name" (resource.getD [])

theorem isSome_grpcSpan {now : ℤ} {service : String} {x : OtlpSpan D} :
    (grpcSpan W now service x).isSome ↔ x.Usable := by
  unfold grpcSpan OtlpSpan.Usable
  cases bytesToTraceId x.traceId with
  | none => simp
  | some t =>
    cases bytesToSpanId x.spanId with
    | none => simp
    | some s => by_cases hname : x.name = "" <;> simp [hname]

theorem isSome_httpSpan {now : ℤ} {service : String} {x : OtlpSpan D} (hids : x.IdsFit) :
    (parseJsonSpan W now service (encodeSpan N x)).isSome ↔ x.Usable := by
  rw [httpSpan_eq hids]
  unfold OtlpSpan.Usable
  cases bytesToTraceId x.traceId with
  | none => simp
  | some t =>
    cases bytesToSpanId x.spanId with
    | none => simp
    | some s => by_cases hname : x.name = "" <;> simp [hname]

/-- **One span** is read alike by both transports. -/
theorem grpcSpan_agrees_iff (now : ℤ) (resource : Option (List (KeyValue D))) {x : OtlpSpan D} (hids : x.IdsFit) :
    grpcSpan W now (resourceNames W resource).1 x =
        parseJsonSpan W now (httpNames N resource).1 (encodeSpan N x) ↔ (x.Usable → SpanAlike N resource x) := by
  by_cases husable : x.Usable
  · obtain ⟨traceId, htrace⟩ := Option.isSome_iff_exists.mp husable.1
    obtain ⟨spanId, hspan⟩ := Option.isSome_iff_exists.mp husable.2.1
    have hname : x.name.isEmpty = false := by simpa using husable.2.2
    rw [httpSpan_eq hids, grpcSpan, htrace, hspan]
    simp only [hname, Bool.false_eq_true, if_false, Option.some.injEq, husable, true_imp_iff]
    constructor
    · intro h
      refine ⟨(attrs_agree_iff _).mp (congrArg ReceivedSpan.attributes h), fun e he => ?_,
        (service_agrees_iff _).mp (congrArg ReceivedSpan.serviceName h)⟩
      have hevents := List.map_inj_left.mp (congrArg ReceivedSpan.events h) e he
      exact (attrs_agree_iff _).mp (congrArg ReceivedEvent.attributes hevents)
    · intro h
      have hevents : mapSpanEvents now x.events = x.events.map fun e =>
          ⟨e.name, nanosToDatetime now e.timeUnixNano, collect (httpPairs N e.attributes)⟩ :=
        List.map_congr_left fun e he => by rw [(attrs_agree_iff _).mpr (h.events e he)]
      rw [(attrs_agree_iff _).mpr h.attributes, (service_agrees_iff resource).mpr h.service, hevents]
  · refine iff_of_true ?_ fun h => absurd h husable
    rw [Option.not_isSome_iff_eq_none.mp (mt isSome_grpcSpan.mp husable),
      Option.not_isSome_iff_eq_none.mp (mt (isSome_httpSpan hids).mp husable)]

/-! ### A whole request -/

/-- One list read in two ways, the first with a count of what it cannot use. -/
theorem ofList_eq_uncounted_iff {A R : Type} {f g : A → Option R} : ∀ {l : List A},
    Exported.ofList (l.map f) = ⟨l.filterMap g, 0⟩ ↔ ∀ a ∈ l, (f a).isSome ∧ (g a).isSome ∧ f a = g a
  | [] => by simp [Exported.ofList]
  | a :: l => by
    have ih := @ofList_eq_uncounted_iff A R f g l
    simp only [Exported.ofList, Exported.mk.injEq, List.countP_eq_zero, List.filterMap_map, Function.id_comp,
      List.forall_mem_cons] at ih ⊢
    rw [← ih]
    cases hf : f a with
    | none => simp [hf]
    | some x =>
      cases hg : g a with
      | none =>
        -- a record dropped by one alone leaves the lists of different lengths
        refine iff_of_false (fun h => ?_) fun h => by simp at h
        obtain ⟨hlist, hall⟩ := h
        have hsome : ∀ b ∈ l, (f b).isSome = true := fun b hb => by
          have := hall (f b) (List.mem_map.mpr ⟨b, List.mem_cons_of_mem _ hb, rfl⟩)
          simpa [Option.isSome_iff_ne_none] using this
        have hlen : (l.filterMap f).length = l.length := by
          rw [List.length_filterMap_eq_countP, List.countP_eq_length]
          exact hsome
        rw [List.filterMap_cons_some hf, List.filterMap_cons_none hg] at hlist
        have := congrArg List.length hlist
        have hle := List.length_filterMap_le g l
        rw [List.length_cons] at this
        omega
      | some y =>
        rw [List.filterMap_cons_some hf, List.filterMap_cons_some hg, List.map_cons, List.forall_mem_cons, hf]
        simp only [List.cons.injEq, Option.isNone_some, Bool.false_eq_true, not_false_eq_true, true_and,
          Option.isSome_some, Option.some.injEq]
        tauto

/-- One list read in two ways, both with a count of what they cannot use. -/
theorem ofList_eq_ofList_iff {A R : Type} {f g : A → Option R} : ∀ {l : List A},
    (∀ a ∈ l, (f a).isSome ↔ (g a).isSome) →
      (Exported.ofList (l.map f) = Exported.ofList (l.map g) ↔ ∀ a ∈ l, f a = g a)
  | [], _ => by simp
  | a :: l, h => by
    obtain ⟨ha, hl⟩ := List.forall_mem_cons.mp h
    have ih := ofList_eq_ofList_iff hl
    have hcount : ∀ {l : List A}, (∀ a ∈ l, (f a).isSome ↔ (g a).isSome) →
        (l.map f).countP Option.isNone = (l.map g).countP Option.isNone := fun hl => by
      rw [List.countP_map, List.countP_map]
      refine List.countP_congr fun b hb => ?_
      have := hl b hb
      cases hf : f b <;> cases hg : g b <;> simp_all
    simp only [Exported.ofList, Exported.mk.injEq, hcount hl, hcount h, and_true, List.filterMap_map, Function.id_comp,
      List.forall_mem_cons] at ih ⊢
    rw [← ih]
    cases hf : f a with
    | none =>
      have hg : g a = none := by simpa [hf] using ha
      rw [List.filterMap_cons_none hf, List.filterMap_cons_none hg, hg]
      simp
    | some x =>
      obtain ⟨y, hg⟩ := Option.isSome_iff_exists.mp (ha.mp (by rw [hf]; rfl))
      rw [List.filterMap_cons_some hf, List.filterMap_cons_some hg, hg, List.cons.injEq, Option.some.injEq]

/-- The log records of a request, each with its resource. -/
def logsOf (req : List (ResourceLogs D)) : List (Option (List (KeyValue D)) × OtlpLogRecord D) :=
  req.flatMap fun rl => rl.scopeLogs.flatten.map fun r => (rl.resource, r)

def spansOf (req : List (ResourceSpans D)) : List (Option (List (KeyValue D)) × OtlpSpan D) :=
  req.flatMap fun rs => rs.scopeSpans.flatten.map fun x => (rs.resource, x)

theorem logRecords_eq (req : List (ResourceLogs D)) :
    logRecords W req = (logsOf req).map fun q => (resourceNames W q.1, q.2) := by
  simp only [logRecords, logsOf, List.map_flatMap, List.map_map]
  rfl

theorem spanRecords_eq (req : List (ResourceSpans D)) :
    spanRecords W req = (spansOf req).map fun q => ((resourceNames W q.1).1, q.2) := by
  simp only [spanRecords, spansOf, List.map_flatMap, List.map_map]
  rfl

/-- The elements of the inner lists of an encoded resource's field. -/
theorem flatMap_inner {A : Type} (key : String) (encode : A → Json D) (lists : List (List A)) :
    (lists.map fun l => Json.object (N.listField key (l.map encode))).flatMap (arrayField key) =
      lists.flatten.map encode := by
  rw [List.flatMap_map, List.map_flatten, List.flatMap_def]
  refine congrArg List.flatten (List.map_congr_left fun l _ => ?_)
  exact arrayField_of_written (written_listField (N := N) key (l.map encode))

theorem jsonLogRecords_encode (req : List (ResourceLogs D)) :
    jsonLogRecords W (encodeLogs N req) = (logsOf req).map fun q => (httpNames N q.1, encodeLogRecord N q.2) := by
  have hreq : arrayField "resourceLogs" (encodeLogs N req) = req.map (encodeResourceLogs N) :=
    arrayField_of_written (written_listField (N := N) _ _)
  unfold jsonLogRecords logsOf
  rw [hreq, List.flatMap_map, List.map_flatMap]
  refine congrArg (List.flatMap · req) (funext fun rl => ?_)
  have hget : ∀ key, (encodeResourceLogs N rl).get key = valueOf (messageField "resource" (rl.resource.map (encodeResource N)) ++
      N.listField "scopeLogs" (rl.scopeLogs.map fun records =>
        .object (N.listField "logRecords" (records.map (encodeLogRecord N))))) key := fun _ => rfl
  simp only [Encoder.listField, valueOf_append, valueOf_field, valueOf_messageField] at hget
  have hscopes : arrayField "scopeLogs" (encodeResourceLogs N rl) = rl.scopeLogs.map fun records =>
      .object (N.listField "logRecords" (records.map (encodeLogRecord N))) :=
    arrayField_of_written (N := N) ((hget _).trans (by simp [Encoder.listField]))
  rw [hscopes, flatMap_inner, @extractJsonResourceAttrs_encode _ _ N _ rl.resource
    ((hget _).trans (by simp)), List.map_map, List.map_map]
  rfl

theorem jsonSpanRecords_encode (req : List (ResourceSpans D)) :
    jsonSpanRecords W (encodeTraces N req) = (spansOf req).map fun q => ((httpNames N q.1).1, encodeSpan N q.2) := by
  have hreq : arrayField "resourceSpans" (encodeTraces N req) = req.map (encodeResourceSpans N) :=
    arrayField_of_written (written_listField (N := N) _ _)
  unfold jsonSpanRecords spansOf
  rw [hreq, List.flatMap_map, List.map_flatMap]
  refine congrArg (List.flatMap · req) (funext fun rs => ?_)
  have hget : ∀ key, (encodeResourceSpans N rs).get key = valueOf (messageField "resource" (rs.resource.map (encodeResource N)) ++
      N.listField "scopeSpans" (rs.scopeSpans.map fun spans =>
        .object (N.listField "spans" (spans.map (encodeSpan N))))) key := fun _ => rfl
  simp only [Encoder.listField, valueOf_append, valueOf_field, valueOf_messageField] at hget
  have hscopes : arrayField "scopeSpans" (encodeResourceSpans N rs) = rs.scopeSpans.map fun spans =>
      .object (N.listField "spans" (spans.map (encodeSpan N))) :=
    arrayField_of_written (N := N) ((hget _).trans (by simp [Encoder.listField]))
  rw [hscopes, flatMap_inner, @extractJsonResourceAttrs_encode _ _ N _ rs.resource
    ((hget _).trans (by simp)), List.map_map, List.map_map]
  rfl

/-- **When the two transports agree** on an export request: exactly when they
agree on every log record, none of them malformed, and on every span that is
not. -/
theorem transports_agree_iff (N : Encoder W) (now : ℤ) {usedPct : ℕ} (hfree : usedPct < backpressureThresholdPct)
    {logs : List (ResourceLogs D)} (hlogs : ∀ q ∈ logsOf logs, q.2.IdsFit)
    {traces : List (ResourceSpans D)} (htraces : ∀ q ∈ spansOf traces, q.2.IdsFit) :
    (logsServiceExport W now usedPct logs = handleLogs W now usedPct (encodeLogs N logs) ↔
        ∀ q ∈ logsOf logs, LogAlike N q.1 q.2) ∧
      (traceServiceExport W now usedPct traces = handleTraces W now usedPct (encodeTraces N traces) ↔
        ∀ q ∈ spansOf traces, q.2.Usable → SpanAlike N q.1 q.2) := by
  have hopen : ¬ backpressureThresholdPct ≤ usedPct := not_le.mpr hfree
  constructor
  · rw [logsServiceExport, handleLogs, if_neg hopen, if_neg hopen, logRecords_eq, jsonLogRecords_encode, List.map_map,
      List.filterMap_map, Option.some.injEq]
    refine ofList_eq_uncounted_iff.trans (forall_congr' fun q => forall_congr' fun hq => ?_)
    exact grpcLog_agrees_iff now q.1 (hlogs q hq)
  · rw [traceServiceExport, handleTraces, if_neg hopen, if_neg hopen, spanRecords_eq, jsonSpanRecords_encode,
      List.map_map, List.map_map, Option.some.injEq]
    refine (ofList_eq_ofList_iff fun q hq => isSome_grpcSpan.trans (isSome_httpSpan (htraces q hq)).symm).trans
      (forall_congr' fun q => forall_congr' fun hq => ?_)
    exact grpcSpan_agrees_iff now q.1 (htraces q hq)

/-- An encoder that leaves out defaults and writes doubles as they are. -/
def sparseEncoder : Encoder floatEnv where
  defaults := false
  base64 _ := ""
  number := .float
  number_reads _ := rfl

/-- A log record with this body and little else. -/
def bodyRecord (body : Option (AnyValue Float)) : OtlpLogRecord Float where
  timeUnixNano := 5
  severityNumber := 9
  body
  attributes := [("user", some (.int 3))]
  traceId := List.replicate 16 1
  spanId := []

def apiLogs (body : Option (AnyValue Float)) : List (ResourceLogs Float) :=
  [⟨some [("service.name", some (.string "api"))], [[bodyRecord body]]⟩]

/-- A list, with a key-value list in it. -/
def nestedValue : AnyValue Float :=
  .array [.string "retry", .bool true, .kvlist [("attempt", some (.int 2)), ("wait", some (.double 0.5)), ("by", none)]]

def namedResource : Option (List (KeyValue Float)) :=
  some [("service.name", some (.string "api")), ("host.name", some (.string "web-1"))]

/-- A record of a call. -/
def callRecord : OtlpLogRecord Float :=
  { bodyRecord (some (.string "up")) with attributes := [("user", some (.int 3)), ("call", some nestedValue)] }

/-- A span of a call, with an event. -/
def callSpan : OtlpSpan Float :=
  { clockedSpan 5 20 with attributes := [("call", some nestedValue)], events := [⟨6, "retry", [("call", some nestedValue)]⟩] }

/-- A child of it. -/
def childSpan : OtlpSpan Float :=
  { clockedSpan 7 9 with spanId := List.replicate 8 2, parentSpanId := List.replicate 8 1 }

def namelessSpan : OtlpSpan Float := { clockedSpan 7 9 with name := "" }

/-- Two records of one resource, and one of none. -/
def nestedLogs : List (ResourceLogs Float) :=
  [⟨namedResource, [[callRecord], [bodyRecord (some (.string "down"))]]⟩, ⟨none, [[bodyRecord (some (.string "lost"))]]⟩]

/-- Two spans, and one without a name, which is malformed. -/
def nestedTraces : List (ResourceSpans Float) :=
  [⟨namedResource, [[callSpan, childSpan], [namelessSpan]]⟩]

theorem writes_key {key : String} (h : key ≠ "") : sparseEncoder.writes key.isEmpty = true := by
  simp [sparseEncoder, Encoder.writes, h]

theorem plain_nestedValue : Plain sparseEncoder nestedValue := by
  have hwrites : sparseEncoder.writes false = true := by decide
  simp [nestedValue, Plain, PlainValues, PlainPairs, hwrites, writes_key]

theorem plainPairs_bodyRecord (body : Option (AnyValue Float)) : PlainPairs sparseEncoder (bodyRecord body).attributes := by
  simp [bodyRecord, PlainPairs, Plain, writes_key]

theorem plainPairs_call : PlainPairs sparseEncoder [("call", some nestedValue)] := by
  simp [PlainPairs, writes_key, plain_nestedValue]

theorem namedAlike_namedResource (key : String) : NamedAlike floatEnv key (namedResource.getD []) := by
  intro t ht
  have hmem := mem_of_lastOf ht
  simp [namedResource, nameTexts, nameText, pairText, AnyValue.isBytes] at hmem

theorem namedAlike_nil (key : String) : NamedAlike floatEnv key [] := fun _ ht => nomatch mem_of_lastOf ht

/-- Nested values in records and spans of two resources, and a malformed span. -/
theorem transports_agree_nested :
    logsServiceExport floatEnv 0 0 nestedLogs = handleLogs floatEnv 0 0 (encodeLogs sparseEncoder nestedLogs) ∧
      traceServiceExport floatEnv 0 0 nestedTraces =
        handleTraces floatEnv 0 0 (encodeTraces sparseEncoder nestedTraces) := by
  have hlogs : logsOf nestedLogs = [(namedResource, callRecord), (namedResource, bodyRecord (some (.string "down"))),
      (none, bodyRecord (some (.string "lost")))] := rfl
  have hspans : spansOf nestedTraces = [(namedResource, callSpan), (namedResource, childSpan),
      (namedResource, namelessSpan)] := rfl
  have hcall : PlainPairs sparseEncoder callRecord.attributes := by
    simp [callRecord, PlainPairs, Plain, writes_key, plain_nestedValue]
  have hagree := @transports_agree_iff Float floatEnv sparseEncoder 0 0 (by decide) nestedLogs
    (by simp [hlogs, callRecord, bodyRecord, OtlpLogRecord.IdsFit]) nestedTraces
    (by simp [hspans, callSpan, childSpan, namelessSpan, clockedSpan, OtlpSpan.IdsFit])
  rw [hlogs, hspans] at hagree
  simp only [List.forall_mem_cons, List.not_mem_nil, false_imp_iff, implies_true, and_true] at hagree
  have hnamed := namedAlike_namedResource
  refine ⟨hagree.1.mpr ⟨⟨⟨"up", rfl, by decide⟩, hcall, hnamed _, hnamed _⟩,
    ⟨⟨"down", rfl, by decide⟩, plainPairs_bodyRecord _, hnamed _, hnamed _⟩,
    ⟨⟨"lost", rfl, by decide⟩, plainPairs_bodyRecord _, namedAlike_nil _, namedAlike_nil _⟩⟩,
    hagree.2.mpr ⟨fun _ => ⟨plainPairs_call, ?_, hnamed _⟩, fun _ => ⟨trivial, List.forall_mem_nil _, hnamed _⟩,
      fun _ => ⟨trivial, List.forall_mem_nil _, hnamed _⟩⟩⟩
  intro e he
  obtain rfl := List.mem_singleton.mp he
  exact plainPairs_call

/-- A body that is a number is a message over gRPC, and dropped over HTTP; a
record without a body is counted over gRPC alone. -/
theorem transports_disagree_number :
    logsServiceExport floatEnv 0 0 (apiLogs (some (.int 7))) ≠
        handleLogs floatEnv 0 0 (encodeLogs sparseEncoder (apiLogs (some (.int 7)))) ∧
      (logsServiceExport floatEnv 0 0 (apiLogs none)).map (·.malformed) ≠
        (handleLogs floatEnv 0 0 (encodeLogs sparseEncoder (apiLogs none))).map (·.malformed) := by
  refine ⟨fun h => ?_, ?_⟩
  · have hlength := congrArg (Option.map fun x : Exported (ReceivedLog Float) => x.records.length) h
    revert hlength
    decide
  · decide

end Logmon
