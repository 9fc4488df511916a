/-
# Loading a case

`cases/load.rs`, past the bytes, and `parse_registry` of `cases/read.rs`: the
document, whichever evidence files there are and the registry file, as texts,
validated into a `LoadedCase`. JSON is written and read by `JsonEnv`. A loaded
case carries the checks it passed: its records are ascending and inside the
declared window (`validateSeqs_ok`) and within `maxCaseRecords`.

Key definitions: `LoadError`, `JsonEnv`, `evidence`, `validateSeqs`,
`parseRegistry`, `LoadedCase`, `load`.
Key theorems: `validateSeqs_ok`.
-/
import Logmon.Cases.Read
import Logmon.DomainData.Path
import Logmon.Span.Store

namespace Logmon
namespace Cases

open Lib DomainData

/-- Hard ceiling on records, that of a domain's buffer. -/
def maxCaseRecords : ℕ := 10000000

inductive LoadError
  | parse (e : ParseError)
  | foreignPointer (key file : String)
  | declaredButMissing (file : String)
  | badHeader (message : String)
  | badRecords (message : String)
  | countMismatch (key : String) (declared parsed : ℕ)
  | tooManyRecords (n : ℕ)
  deriving DecidableEq

/-- One fact of a domain's registry. -/
structure RegistryFact where
  path : String
  value : String
  createdAt : ℤ
  validatedAt : ℤ
  ttlSecs : Option ℕ
  expired : Option Bool
  deriving DecidableEq

/-- The facts a load restores. -/
structure RegistryBlock where
  logmonFormat : ℕ
  facts : List RegistryFact
  dropped : ℕ
  deriving DecidableEq

/-- A line of an evidence file, or the registry file, as JSON, written and
read. A header is its format and its kind. -/
structure JsonEnv where
  header : ℕ → String → List Char
  readHeader : List Char → Except String (ℕ × String)
  log : LogEntry → List Char
  readLog : List Char → Except String LogEntry
  span : SpanEntry → List Char
  readSpan : List Char → Except String SpanEntry
  registry : RegistryBlock → List Char
  readRegistry : List Char → Except String RegistryBlock

/-- A case's files under its stem, as texts. -/
structure CaseBytes where
  stem : String
  document : List Char
  logdata : Option (List Char)
  spandata : Option (List Char)
  registry : Option (List Char)
  deriving DecidableEq

/-- `<stem>.logdata.jsonl`. -/
def logdataName (stem : String) : String := stem ++ ".logdata.jsonl"

/-- `<stem>.spandata.jsonl`. -/
def spandataName (stem : String) : String := stem ++ ".spandata.jsonl"

/-- A pointer names the case's own file. -/
def checkPointer (key : String) (declared : Option String) (want : String) : Except LoadError Unit :=
  match declared with
  | none => .ok ()
  | some f => if f = want then .ok () else .error (.foreignPointer key f)

section Evidence

variable (J : JsonEnv)

def checkHeader (file : String) (header : List Char) (wantKind : String) : Except LoadError Unit :=
  match J.readHeader header with
  | .error e => .error (.badHeader ("`" ++ file ++ "` header is not readable: " ++ e))
  | .ok (format, kind) =>
    if formatVersion < format then
      .error (.badHeader ("`" ++ file ++ "` was written by a newer logmon (format " ++ toString format ++ " > " ++
        toString formatVersion ++ ")"))
    else if kind ≠ wantKind then
      .error (.badHeader ("`" ++ file ++ "` holds `" ++ kind ++ "` records but is named as `" ++ wantKind ++
        "`; this case's data files have been swapped or renamed"))
    else .ok ()

variable {T : Type} (readRecord : List Char → Except String T)

/-- The records of the lines after the header, from the `n`th on. The ceiling
is checked before a record is read. -/
def readRecords (file : String) : ℕ → List T → List (List Char) → Except LoadError (List T)
  | _, out, [] => .ok out
  | n, out, line :: ls =>
    if (trim line).isEmpty then readRecords file (n + 1) out ls
    else if maxCaseRecords ≤ out.length then .error (.tooManyRecords (out.length + 1))
    else match readRecord line with
      | .error e => .error (.badRecords ("`" ++ file ++ "` record " ++ toString n ++ ": " ++ e))
      | .ok rec => readRecords file (n + 1) (out ++ [rec]) ls

/-- One evidence file. A declared key with a file is evidence, an absent key is
omission, and a declared key without a file is corruption. -/
def evidence (key : String) (declared : Option FileRef) (file : Option (List Char)) :
    Except LoadError (Option (List T)) :=
  match declared, file with
  | none, _ => .ok none
  | some d, none => .error (.declaredButMissing d.file)
  | some d, some text =>
    match lines text with
    | [] => .error (.badHeader ("`" ++ d.file ++ "` has no header line"))
    | header :: ls => do
      checkHeader J d.file header key
      let out ← readRecords readRecord d.file 0 [] ls
      if out.length ≠ d.records then throw (.countMismatch key d.records out.length)
      return some out

end Evidence

section Seqs

variable {T : Type} (seq : T → ℕ)

/-- The records from the one after `prev` on. -/
def checkSeqs (key : String) (fromSeq toSeq : ℕ) : Option ℕ → List T → Except LoadError Unit
  | _, [] => .ok ()
  | prev, r :: rs =>
    if seq r < fromSeq ∨ toSeq < seq r then
      .error (.badRecords ("`" ++ key ++ "` holds seq " ++ toString (seq r) ++ ", outside the declared window " ++
        toString fromSeq ++ "–" ++ toString toSeq))
    else match prev with
      | some p =>
        if seq r ≤ p then
          .error (.badRecords ("`" ++ key ++ "` seqs are not ascending and distinct: " ++ toString (seq r) ++
            " follows " ++ toString p))
        else checkSeqs key fromSeq toSeq (some (seq r)) rs
      | none => checkSeqs key fromSeq toSeq (some (seq r)) rs

/-- Records must be ascending, distinct and inside the declared window. -/
def validateSeqs (key : String) (records : Option (List T)) (front : FrontMatter) : Except LoadError Unit :=
  match records with
  | none => .ok ()
  | some records =>
    if front.seqRange.toSeq < front.seqRange.fromSeq then
      .error (.badRecords ("the declared window is inverted: from " ++ toString front.seqRange.fromSeq ++ " to " ++
        toString front.seqRange.toSeq))
    else checkSeqs seq key front.seqRange.fromSeq front.seqRange.toSeq none records

variable {seq}

theorem checkSeqs_ok {key : String} {lo hi : ℕ} : ∀ {rs : List T} {prev : Option ℕ},
    checkSeqs seq key lo hi prev rs = .ok () ↔
      Asc seq rs ∧ (∀ r ∈ rs, lo ≤ seq r ∧ seq r ≤ hi) ∧ ∀ p ∈ prev, ∀ r ∈ rs, p < seq r := by
  intro rs
  induction rs with
  | nil => simp [checkSeqs, Asc]
  | cons r rs ih =>
    intro prev
    unfold checkSeqs
    by_cases hout : seq r < lo ∨ hi < seq r
    · rw [if_pos hout]
      refine ⟨(fun h => by cases h), fun h => ?_⟩
      have := h.2.1 r List.mem_cons_self
      omega
    rw [if_neg hout, asc_cons]
    -- the rest follows `r`, whatever came before it
    have hrest : checkSeqs seq key lo hi (some (seq r)) rs = .ok () ↔
        ((∀ b ∈ rs, seq r < seq b) ∧ Asc seq rs) ∧ ∀ x ∈ r :: rs, lo ≤ seq x ∧ seq x ≤ hi := by
      rw [ih]
      constructor
      · rintro ⟨hasc, hin, hprev⟩
        exact ⟨⟨hprev _ rfl, hasc⟩, List.forall_mem_cons.mpr ⟨by omega, hin⟩⟩
      · rintro ⟨⟨hlt, hasc⟩, hin⟩
        refine ⟨hasc, fun x hx => hin x (List.mem_cons_of_mem _ hx), fun p hp => ?_⟩
        obtain rfl : seq r = p := by simpa using hp
        exact hlt
    cases prev with
    | none =>
      simp only [hrest]
      exact ⟨fun h => ⟨h.1, h.2, (fun _ hp => by cases hp)⟩, fun h => ⟨h.1, h.2.1⟩⟩
    | some p =>
      simp only
      by_cases hle : seq r ≤ p
      · rw [if_pos hle]
        refine ⟨(fun h => by cases h), fun h => ?_⟩
        have := h.2.2 p rfl r List.mem_cons_self
        omega
      · rw [if_neg hle, hrest]
        refine ⟨fun h => ⟨h.1, h.2, fun q hq x hx => ?_⟩, fun h => ⟨h.1, h.2.1⟩⟩
        obtain rfl : p = q := by simpa using hq
        rcases List.mem_cons.mp hx with rfl | hx
        · omega
        · have := h.1.1 x hx
          omega

/-- **What passes is what a ring can hold**: ascending, and in the window. -/
theorem validateSeqs_ok {key : String} {records : List T} {front : FrontMatter} :
    validateSeqs seq key (some records) front = .ok () ↔ front.seqRange.fromSeq ≤ front.seqRange.toSeq ∧
      Asc seq records ∧ ∀ r ∈ records, front.seqRange.fromSeq ≤ seq r ∧ seq r ≤ front.seqRange.toSeq := by
  unfold validateSeqs
  simp only
  split
  · rename_i hinv
    exact ⟨(fun h => nomatch h), fun h => by omega⟩
  · rename_i hinv
    rw [checkSeqs_ok]
    exact ⟨fun h => ⟨by omega, h.1, h.2.1⟩, fun h => ⟨h.2.1, h.2.2, fun _ hp => nomatch hp⟩⟩

end Seqs

/-- Registry facts one case may carry: the keys a domain may have. -/
def maxRegistryFacts : ℕ := DomainData.maxKeys

/-- Parse the registry file. A case without one has no provenance to restore. -/
def parseRegistry (J : JsonEnv) : Option (List Char) → Except ParseError (Option RegistryBlock)
  | none => .ok none
  | some text =>
    match J.readRegistry text with
    | .error e => .error (.badFlow 0 ("registry file (" ++ e ++ ")"))
    | .ok block =>
      if maxRegistryFacts < block.facts.length then
        .error (.badFlow 0 ("registry file holds " ++ toString block.facts.length ++ " facts, above the " ++
          toString maxRegistryFacts ++ " a case may carry"))
      else match block.facts.find? fun f => maxValueBytes < f.value.utf8ByteSize with
        | some f =>
          .error (.badFlow 0 ("registry fact `" ++ f.path ++ "` carries " ++ toString f.value.utf8ByteSize ++
            " bytes, above the " ++ toString maxValueBytes ++ " a value may hold"))
        | none =>
          if formatVersion < block.logmonFormat then .error (.formatTooNew block.logmonFormat formatVersion)
          else .ok (some block)

/-- A case, validated and ready to become a domain. `none` is evidence the
capture omitted. -/
structure LoadedCase where
  stem : String
  front : FrontMatter
  logs : Option (List LogEntry)
  spans : Option (List SpanEntry)
  registry : Option RegistryBlock
  total_le : (logs.getD []).length + (spans.getD []).length ≤ maxCaseRecords
  logs_valid : validateSeqs LogEntry.seq "logdata" logs front = .ok ()
  spans_valid : validateSeqs SpanEntry.seq "spandata" spans front = .ok ()

variable (D : ReadEnv) (J : JsonEnv)

/-- The document's front matter. -/
def readFrontMatter (doc : List Char) : Except ParseError FrontMatter :=
  (parseFrontMatter D doc).get (by
    obtain ⟨r, hr⟩ := parseFrontMatter_isSome D doc
    rw [hr]
    rfl)

/-- The records against the window and the ceiling, and then the registry. -/
def validated (stem : String) (front : FrontMatter) (logs : Option (List LogEntry)) (spans : Option (List SpanEntry))
    (registry : Option (List Char)) : Except LoadError LoadedCase :=
  if htotal : (logs.getD []).length + (spans.getD []).length ≤ maxCaseRecords then
    match hlogs : validateSeqs LogEntry.seq "logdata" logs front with
    | .error e => .error e
    | .ok () =>
      match hspans : validateSeqs SpanEntry.seq "spandata" spans front with
      | .error e => .error e
      | .ok () =>
        match parseRegistry J registry with
        | .error e => .error (.parse e)
        | .ok registry => .ok ⟨stem, front, logs, spans, registry, htotal, hlogs, hspans⟩
  else .error (.tooManyRecords ((logs.getD []).length + (spans.getD []).length))

/-- Read a case from its files. -/
def load (bytes : CaseBytes) : Except LoadError LoadedCase :=
  match readFrontMatter D bytes.document with
  | .error e => .error (.parse e)
  | .ok front => do
    checkPointer "logdata" (front.logdata.map FileRef.file) (logdataName bytes.stem)
    checkPointer "spandata" (front.spandata.map FileRef.file) (spandataName bytes.stem)
    let logs ← evidence J J.readLog "logdata" front.logdata bytes.logdata
    let spans ← evidence J J.readSpan "spandata" front.spandata bytes.spandata
    validated J bytes.stem front logs spans bytes.registry

namespace LoadedCase

variable (c : LoadedCase)

/-- The window's lower bound, which is also the floor of both rings. -/
def fromSeq : ℕ := c.front.seqRange.fromSeq

def toSeq : ℕ := c.front.seqRange.toSeq

theorem logs_asc : Asc LogEntry.seq (c.logs.getD []) := by
  have h := c.logs_valid
  cases hlogs : c.logs with
  | none => exact Asc.nil
  | some l =>
    rw [hlogs] at h
    exact (validateSeqs_ok.mp h).2.1

theorem spans_asc : Asc SpanEntry.seq (c.spans.getD []) := by
  have h := c.spans_valid
  cases hspans : c.spans with
  | none => exact Asc.nil
  | some l =>
    rw [hspans] at h
    exact (validateSeqs_ok.mp h).2.1

end LoadedCase

end Cases
end Logmon
