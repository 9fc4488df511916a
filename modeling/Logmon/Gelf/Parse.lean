/-
# Parsing a GELF message

`parse_gelf_message` and `parse_promoted` of `gelf/message.rs`, on the answer
of the JSON parser. A key with an underscore in front is an additional field;
the level, the trace id and the span id are promoted to fields of their own.

A correlation id leaves the additional fields only once it was read
(`valueOf_parsePromoted`), but `_level` is left out whether it names a level
or not, and the numbers of `level` and `line` are cut to the width of their
types: no field is lost or changed exactly when neither shows
(`gelf_fields_survive_iff`).

Key definitions: `GelfEntry`, `parsePromoted`, `parseGelfMessage`,
`FieldsSurvive`, `FieldsKept`.
Key theorems: `valueOf_parsePromoted`, `valueOf_additionalOf`,
`gelf_fields_survive_iff`.
-/
import Logmon.Filter.Parse
import Logmon.Otlp.Http

namespace Logmon

open Lib

/-! ### The message -/

/-- `Level::from_syslog`. -/
def fromSyslog : ℕ → Level
  | 0 => .error
  | 1 => .error
  | 2 => .error
  | 3 => .error
  | 4 => .warn
  | 5 => .info
  | 6 => .info
  | _ => .debug

inductive GelfParseError
  | invalidJson (message : String)
  | missingField (name : String)
  deriving DecidableEq

/-- A `LogEntry` as the parser builds it, its additional fields JSON values.
No filter has matched it yet. -/
structure GelfEntry (D : Type) extends ReceivedLog D where
  seq : ℕ
  file : Option String
  line : Option ℕ

/-- What the parser uses of `f64`. -/
structure GelfEnv (D : Type) where
  /-- An integer as `f64`. -/
  ofInt : ℤ → D
  /-- `ts as i64`, and what is left in nanoseconds, `as u32`. -/
  secsNanos : D → ℤ × ℕ

variable {D : Type}

/-- The name of an additional field, of a key that is one. -/
def strippedName (key : String) : Option String :=
  match key.toList with
  | '_' :: name => some (String.ofList name)
  | _ => none

/-- Lift a field out of the additional ones, if it can be read. -/
def parsePromoted {T : Type} (fields : List (String × Json D)) (key : String) (parse : String → Option T) :
    Option T × List (String × Json D) :=
  let parsed := ((valueOf fields key).bind Json.asStr).bind parse
  (parsed, if parsed.isSome then fields.filter (·.1 ≠ key) else fields)

/-- The additional fields of an object, before any is promoted. -/
def additionalOf (obj : List (String × Json D)) : List (String × Json D) :=
  (obj.filter (·.1 ≠ "_level")).filterMap fun q => (strippedName q.1).map (·, q.2)

/-- A field of the object that is text. -/
def textOf (obj : List (String × Json D)) (key : String) : Option String := (valueOf obj key).bind Json.asStr

/-- A field of the object that is a `u64`. -/
def numberOf (obj : List (String × Json D)) (key : String) : Option ℕ :=
  ((valueOf obj key).bind Json.asU64).map UInt64.toNat

/-- The level `_level` names. -/
def namedLevel (env : ParseEnv) (obj : List (String × Json D)) : Option Level :=
  (textOf obj "_level").bind (levelFromName env)

def gelfTimestamp (G : GelfEnv D) (now : ℤ) (obj : List (String × Json D)) : ℤ :=
  match (valueOf obj "timestamp").bind (Json.asF64 G.ofInt) with
  | some ts => (timestampOpt (G.secsNanos ts).1 (G.secsNanos ts).2).getD now
  | none => now

/-- `parse_gelf_message`, of an object that names a host and a message. -/
def gelfEntry (env : ParseEnv) (G : GelfEnv D) (now : ℤ) (seq : ℕ) (obj : List (String × Json D))
    (host message : String) : GelfEntry D :=
  let syslogLevel := (numberOf obj "level").getD 6 % 2 ^ 8
  let trace := parsePromoted (additionalOf obj) "trace_id" (fromStrRadix16 128)
  let span := parsePromoted trace.2 "span_id" (fromStrRadix16 64)
  { seq
    timestamp := gelfTimestamp G now obj
    level := (namedLevel env obj).getD (fromSyslog syslogLevel)
    message
    fullMessage := textOf obj "full_message"
    host
    facility := textOf obj "facility"
    file := textOf obj "file"
    line := (numberOf obj "line").map (· % 2 ^ 32)
    additionalFields := span.2
    traceId := trace.1
    spanId := span.1 }

/-- `parse_gelf_message`; `parsed` is what `serde_json::from_slice` makes of
the bytes. -/
def parseGelfMessage (env : ParseEnv) (G : GelfEnv D) (now : ℤ) (parsed : Except String (Json D)) (seq : ℕ) :
    Except GelfParseError (GelfEntry D) :=
  match parsed with
  | .error message => .error (.invalidJson message)
  | .ok (.object obj) =>
    match textOf obj "host" with
    | none => .error (.missingField "host")
    | some host =>
      match textOf obj "short_message" with
      | none => .error (.missingField "short_message")
      | some message => .ok (gelfEntry env G now seq obj host message)
  | .ok _ => .error (.missingField "root object")

theorem parseGelfMessage_ok {env : ParseEnv} {G : GelfEnv D} {now : ℤ} {obj : List (String × Json D)} {seq : ℕ}
    {e : GelfEntry D} (h : parseGelfMessage env G now (.ok (.object obj)) seq = .ok e) :
    ∃ host message, textOf obj "host" = some host ∧ textOf obj "short_message" = some message ∧
      e = gelfEntry env G now seq obj host message := by
  unfold parseGelfMessage at h
  simp only at h
  cases hhost : textOf obj "host" with
  | none =>
    rw [hhost] at h
    cases h
  | some host =>
    rw [hhost] at h
    simp only at h
    cases hmessage : textOf obj "short_message" with
    | none =>
      rw [hmessage] at h
      cases h
    | some message =>
      rw [hmessage] at h
      exact ⟨host, message, rfl, rfl, (Except.ok.inj h).symm⟩

/-! ### The additional fields -/

theorem strippedName_eq_some_iff {key name : String} : strippedName key = some name ↔ key = "_" ++ name := by
  unfold strippedName
  constructor
  · intro h
    split at h
    · rename_i rest hkey
      obtain rfl := Option.some.inj h
      apply String.toList_inj.mp
      simp [hkey]
    · cases h
  · rintro rfl
    have hkey : ("_" ++ name).toList = '_' :: name.toList := by rw [String.toList_append]; rfl
    rw [hkey]
    simp

/-- **An additional field is the object's, under its name.** Only `_level` is
left out. -/
theorem valueOf_additionalOf (obj : List (String × Json D)) (name : String) :
    valueOf (additionalOf obj) name = if name = "level" then none else valueOf obj ("_" ++ name) := by
  unfold additionalOf
  induction obj with
  | nil => simp
  | cons q obj ih =>
    have hlevel : "_" ++ name = "_level" ↔ name = "level" := by
      rw [show "_level" = "_" ++ "level" from rfl, String.append_right_inj]
    rw [valueOf_cons, List.filter_cons]
    by_cases hq : q.1 = "_level"
    · rw [if_neg (by simpa using hq), ih]
      by_cases hname : name = "level"
      · rw [if_pos hname, if_pos hname]
      · rw [if_neg hname, if_neg hname, if_neg fun h => hname (hlevel.mp (h.symm.trans hq))]
    · rw [if_pos (by simpa using hq), List.filterMap_cons]
      cases hs : strippedName q.1 with
      | none =>
        have hne : q.1 ≠ "_" ++ name := fun h => by
          rw [strippedName_eq_some_iff.mpr h] at hs
          cases hs
        rw [if_neg hne]
        exact ih
      | some own =>
        have hkey := strippedName_eq_some_iff.mp hs
        rw [Option.map_some, valueOf_cons, ih, hkey]
        by_cases hown : own = name
        · subst hown
          have : own ≠ "level" := fun h => hq (by rw [hkey, h]; rfl)
          rw [if_pos rfl, if_neg this, if_pos rfl]
        · rw [if_neg hown, if_neg fun h => hown ((String.append_right_inj _).mp h)]

/-- **A promoted field is removed only where it was read**, and no other is. -/
theorem valueOf_parsePromoted {T : Type} (fields : List (String × Json D)) (key : String) (parse : String → Option T)
    (name : String) :
    valueOf (parsePromoted fields key parse).2 name = valueOf fields name ∨
      name = key ∧ ∃ s t, valueOf fields key = some (.string s) ∧ parse s = some t ∧
        (parsePromoted fields key parse).1 = some t := by
  unfold parsePromoted
  cases hp : ((valueOf fields key).bind Json.asStr).bind parse with
  | none => exact .inl rfl
  | some t =>
    by_cases hname : name = key
    · obtain ⟨s, hs, ht⟩ := Option.bind_eq_some_iff.mp hp
      obtain ⟨v, hv, hvs⟩ := Option.bind_eq_some_iff.mp hs
      cases v with
      | string s' =>
        obtain rfl := Option.some.inj hvs
        exact .inr ⟨hname, s', t, hv, ht, rfl⟩
      | _ => cases hvs
    · left
      simp only [Option.isSome_some, if_true]
      unfold valueOf
      rw [List.find?_filter]
      congr 2
      funext q
      by_cases hq : q.1 = name <;> simp [hq, hname]

/-! ### What survives -/

/-- A field was promoted: a typed field holds what its text denotes. -/
def PromotedAs (env : ParseEnv) (e : GelfEntry D) (name : String) (v : Json D) : Prop :=
  ∃ s, v = .string s ∧
    (name = "level" ∧ levelFromName env s = some e.level ∨
      name = "trace_id" ∧ (∃ id, fromStrRadix16 128 s = some id ∧ e.traceId = some id) ∨
      name = "span_id" ∧ ∃ id, fromStrRadix16 64 s = some id ∧ e.spanId = some id)

/-- No field is lost, and no number is changed. -/
structure FieldsSurvive (env : ParseEnv) (obj : List (String × Json D)) (e : GelfEntry D) : Prop where
  underscored : ∀ name v, valueOf obj ("_" ++ name) = some v →
    PromotedAs env e name v ∨ valueOf e.additionalFields name = some v
  /-- A level taken from a number is that number's. -/
  level : ∀ n, numberOf obj "level" = some n → namedLevel env obj = none → e.level = fromSyslog n
  line : ∀ n, numberOf obj "line" = some n → e.line = some n

/-- `_level` names a level where it is there, and the numbers fit the types
they are cut to, or the cut makes no difference. -/
structure FieldsKept (env : ParseEnv) (obj : List (String × Json D)) : Prop where
  named : (valueOf obj "_level").isSome → (namedLevel env obj).isSome
  level : ∀ n, numberOf obj "level" = some n → namedLevel env obj = none → n < 2 ^ 8 ∨ 7 ≤ n % 2 ^ 8
  line : ∀ n, numberOf obj "line" = some n → n < 2 ^ 32

theorem fromSyslog_debug {n : ℕ} : fromSyslog n = .debug ↔ 7 ≤ n := by
  constructor
  · intro h
    by_contra hlt
    have hall : ∀ k < 7, fromSyslog k ≠ .debug := by decide
    exact hall n (by omega) h
  · intro h
    obtain ⟨m, rfl⟩ := Nat.exists_eq_add_of_le' h
    rfl

theorem fromSyslog_mod_iff {n : ℕ} : fromSyslog (n % 2 ^ 8) = fromSyslog n ↔ n < 2 ^ 8 ∨ 7 ≤ n % 2 ^ 8 := by
  by_cases h : n < 2 ^ 8
  · rw [Nat.mod_eq_of_lt h]
    exact iff_of_true rfl (.inl h)
  · rw [fromSyslog_debug.mpr (show 7 ≤ n by omega), fromSyslog_debug]
    exact ⟨.inr, fun h' => h'.resolve_left h⟩

theorem asStr_eq_some {v : Json D} {s : String} (h : v.asStr = some s) : v = .string s := by
  cases v with
  | string s' => rw [Option.some.inj h]
  | _ => cases h

section
variable (env : ParseEnv) (G : GelfEnv D) (now : ℤ) (seq : ℕ) {obj : List (String × Json D)} (host message : String)

theorem valueOf_gelfEntry_level :
    valueOf (gelfEntry env G now seq obj host message).additionalFields "level" = none := by
  show valueOf (parsePromoted (parsePromoted (additionalOf obj) "trace_id" (fromStrRadix16 128)).2 "span_id"
    (fromStrRadix16 64)).2 "level" = none
  rcases valueOf_parsePromoted (parsePromoted (additionalOf obj) "trace_id" (fromStrRadix16 128)).2 "span_id"
    (fromStrRadix16 64) "level" with h | ⟨h, -⟩
  · rcases valueOf_parsePromoted (additionalOf obj) "trace_id" (fromStrRadix16 128) "level" with h' | ⟨h', -⟩
    · rw [h, h', valueOf_additionalOf, if_pos rfl]
    · exact absurd h' (by decide)
  · exact absurd h (by decide)

/-- An additional field is promoted, or it stays. -/
theorem promoted_or_kept {name : String} {v : Json D} (h : valueOf (additionalOf obj) name = some v) :
    PromotedAs env (gelfEntry env G now seq obj host message) name v ∨
      valueOf (gelfEntry env G now seq obj host message).additionalFields name = some v := by
  have hspan := valueOf_parsePromoted (parsePromoted (additionalOf obj) "trace_id" (fromStrRadix16 128)).2 "span_id"
    (fromStrRadix16 64) name
  rcases valueOf_parsePromoted (additionalOf obj) "trace_id" (fromStrRadix16 128) name with
    htrace | ⟨rfl, s, t, hs, ht, hpromoted⟩
  · rcases hspan with hspan | ⟨rfl, s, t, hs, ht, hpromoted⟩
    · exact .inr (hspan.trans (htrace.trans h))
    · obtain rfl : v = .string s := Option.some.inj (h.symm.trans (htrace.symm.trans hs))
      exact .inl ⟨s, rfl, .inr (.inr ⟨rfl, t, ht, hpromoted⟩)⟩
  · obtain rfl : v = .string s := Option.some.inj (h.symm.trans hs)
    exact .inl ⟨s, rfl, .inr (.inl ⟨rfl, t, ht, hpromoted⟩)⟩

end

/-- **No GELF field is lost, and no number wrapped**, exactly when a `_level`
that is there names a level and the numbers of `level` and `line` fit. -/
theorem gelf_fields_survive_iff {env : ParseEnv} {G : GelfEnv D} {now : ℤ} {obj : List (String × Json D)} {seq : ℕ}
    {e : GelfEntry D} (h : parseGelfMessage env G now (.ok (.object obj)) seq = .ok e) :
    FieldsSurvive env obj e ↔ FieldsKept env obj := by
  obtain ⟨host, message, -, -, rfl⟩ := parseGelfMessage_ok h
  have hlevelOf : ∀ n, numberOf obj "level" = some n → namedLevel env obj = none →
      (gelfEntry env G now seq obj host message).level = fromSyslog (n % 2 ^ 8) := by
    intro n hn hnone
    unfold gelfEntry
    rw [hn, hnone]
    rfl
  have hlineOf : ∀ n, numberOf obj "line" = some n →
      (gelfEntry env G now seq obj host message).line = some (n % 2 ^ 32) := by
    intro n hn
    unfold gelfEntry
    rw [hn]
    rfl
  constructor
  · rintro ⟨hunder, hlevel, hline⟩
    refine ⟨fun hsome => ?_, fun n hn hnone => ?_, fun n hn => ?_⟩
    · obtain ⟨v, hv⟩ := Option.isSome_iff_exists.mp hsome
      rcases hunder "level" v hv with ⟨s, rfl, hpromoted⟩ | hkept
      · rcases hpromoted with ⟨-, hs⟩ | ⟨hname, -⟩ | ⟨hname, -⟩
        · unfold namedLevel textOf
          rw [hv, Option.bind_some, Json.asStr, Option.bind_some, hs]
          rfl
        · exact absurd hname (by decide)
        · exact absurd hname (by decide)
      · rw [valueOf_gelfEntry_level] at hkept
        cases hkept
    · exact fromSyslog_mod_iff.mp ((hlevelOf n hn hnone).symm.trans (hlevel n hn hnone))
    · have := Option.some.inj ((hlineOf n hn).symm.trans (hline n hn))
      omega
  · rintro ⟨hnamed, hlevel, hline⟩
    refine ⟨fun name v hv => ?_, fun n hn hnone => ?_, fun n hn => ?_⟩
    · by_cases hname : name = "level"
      · subst hname
        have hv' : valueOf obj "_level" = some v := hv
        obtain ⟨level, hlevel⟩ := Option.isSome_iff_exists.mp (hnamed (by rw [hv']; rfl))
        obtain ⟨s, hs, hread⟩ := Option.bind_eq_some_iff.mp hlevel
        obtain ⟨w, hw, hws⟩ := Option.bind_eq_some_iff.mp hs
        obtain rfl : v = w := Option.some.inj (hv.symm.trans hw)
        obtain rfl := asStr_eq_some hws
        refine .inl ⟨s, rfl, .inl ⟨rfl, ?_⟩⟩
        unfold gelfEntry
        rw [hlevel]
        exact hread
      · have hadditional : valueOf (additionalOf obj) name = some v := by
          rw [valueOf_additionalOf, if_neg hname, hv]
        exact promoted_or_kept env G now seq host message hadditional
    · exact (hlevelOf n hn hnone).trans (fromSyslog_mod_iff.mpr (hlevel n hn hnone))
    · rw [hlineOf n hn, Nat.mod_eq_of_lt (hline n hn)]

/-- Numbers as they are, and a timestamp in whole seconds. -/
def wholeSeconds : GelfEnv ℤ := ⟨id, fun d => (d, 0)⟩

/-- An object that names a host and a message, with these fields beside. -/
def gelfObject (fields : List (String × Json ℤ)) : List (String × Json ℤ) :=
  ("host", .string "web") :: ("short_message", .string "started") :: fields

theorem gelf_fields_survive_correlated :
    FieldsSurvive ParseEnv.ascii
      (gelfObject [("_level", .string "trace"), ("line", .int 12), ("_trace_id", .string "not-hex")])
      (gelfEntry ParseEnv.ascii wholeSeconds 0 1
        (gelfObject [("_level", .string "trace"), ("line", .int 12), ("_trace_id", .string "not-hex")])
        "web" "started") := by
  refine (@gelf_fields_survive_iff ℤ ParseEnv.ascii wholeSeconds 0 _ 1 _ rfl).mpr ⟨fun _ => by decide, ?_, ?_⟩
  · intro n hn
    cases hn
  · intro n hn
    obtain rfl : 12 = n := Option.some.inj hn
    decide

/-- A level the parser does not know is in no field of the entry. -/
theorem gelf_level_lost :
    ¬ ∀ (obj : List (String × Json ℤ)) (e : GelfEntry ℤ),
      parseGelfMessage ParseEnv.ascii wholeSeconds 0 (.ok (.object obj)) 1 = .ok e →
        FieldsSurvive ParseEnv.ascii obj e := by
  intro h
  have hsurvive := h (gelfObject [("_level", .string "notice")]) _ rfl
  have hunknown : levelFromName ParseEnv.ascii "notice" = none := by decide
  rcases hsurvive.underscored "level" (.string "notice") rfl with ⟨s, hs, hpromoted⟩ | hkept
  · obtain rfl : "notice" = s := Json.string.inj hs
    rcases hpromoted with ⟨-, hs⟩ | ⟨hname, -⟩ | ⟨hname, -⟩
    · rw [hunknown] at hs
      cases hs
    · exact absurd hname (by decide)
    · exact absurd hname (by decide)
  · cases hkept

end Logmon
