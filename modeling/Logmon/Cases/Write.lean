/-
# Writing a case's files

`cases/write.rs` and `cases/naming.rs`: an evidence file is a format header and
one record per line, and a case's files are named after its stem. What is
written under a stem is accepted under it, with every record as it was
(`load_written`).

Key definitions: `writeJsonl`, `registryJson`, `resolvePrefix`, `stemOf`,
`Carried`.
Key theorems: `evidence_writeJsonl`, `load_written`, `safeStem_stemOf`.
-/
import Logmon.Cases.FrontMatter
import Logmon.Cases.Load

namespace Logmon
namespace Cases

open Lib DomainData

/-! ### File names -/

/-- A filename fragment: what is not a letter, a digit, `-` or `_` is `_`. -/
def safeName (s : String) : List Char := s.toList.map fun c => if isSafe c then c else '_'

def maxPrefixBytes : ℕ := 48

/-- Sanitise, bound, and accept only if something readable survives. -/
def usablePrefix (raw : String) : Option (List Char) :=
  let s := (safeName raw).take maxPrefixBytes
  if s.any Char.isAlphanum then some s else none

/-- The filename prefix, most specific source first: the parameter, then the
domain's `/case-name`, then the domain. -/
def resolvePrefix (param caseName : Option String) (domain : String) : List Char :=
  (([param, caseName, some domain].filterMap id).findSome? usablePrefix).getD "case".toList

/-- `<prefix>-<yymmdd>-<hhmmss>`, and the rolled id where that is taken. -/
def stemOf (pre : List Char) (stamp : String) (rolled : Option String) : String :=
  String.ofList (pre ++ '-' :: stamp.toList ++ (rolled.map fun id => '-' :: id.toList).getD [])

theorem usablePrefix_safe {raw : String} {s : List Char} (h : usablePrefix raw = some s) :
    s ≠ [] ∧ ∀ c ∈ s, isSafe c = true := by
  unfold usablePrefix at h
  dsimp only at h
  split_ifs at h with hany
  obtain rfl := Option.some.inj h
  constructor
  · intro hnil
    simp [hnil] at hany
  · intro c hc
    obtain ⟨a, -, rfl⟩ := List.mem_map.mp (List.mem_of_mem_take hc)
    split_ifs with ha
    · exact ha
    · decide

theorem resolvePrefix_safe (param caseName : Option String) (domain : String) :
    resolvePrefix param caseName domain ≠ [] ∧ ∀ c ∈ resolvePrefix param caseName domain, isSafe c = true := by
  unfold resolvePrefix
  cases hfound : ([param, caseName, some domain].filterMap id).findSome? usablePrefix with
  | none => exact (by decide : SafeStem "case")
  | some s =>
    obtain ⟨raw, -, hraw⟩ := List.exists_of_findSome?_eq_some hfound
    exact usablePrefix_safe hraw

/-- A stem is a word, whatever the domain and the prefix are. -/
theorem safeStem_stemOf {param caseName rolled : Option String} {domain stamp : String} (hstamp : SafeStem stamp)
    (hrolled : ∀ id ∈ rolled, SafeStem id) :
    SafeStem (stemOf (resolvePrefix param caseName domain) stamp rolled) := by
  obtain ⟨hne, hsafe⟩ := resolvePrefix_safe param caseName domain
  refine ⟨by simp [stemOf], fun c hc => ?_⟩
  simp only [stemOf, String.toList_ofList, List.append_assoc, List.mem_append, List.cons_append, List.mem_cons] at hc
  rcases hc with hc | rfl | hc | hc
  · exact hsafe c hc
  · decide
  · exact hstamp.2 c hc
  · cases rolled with
    | none => simp at hc
    | some id =>
      rcases List.mem_cons.mp hc with rfl | hc
      · decide
      · exact (hrolled id rfl).2 c hc

/-! ### Evidence files -/

section Jsonl

variable {T : Type}

/-- A format header, then one record per line. -/
def writeJsonl (J : JsonEnv) (kind : String) (write : T → List Char) (records : List T) : List Char :=
  (J.header formatVersion kind :: records.map write).flatMap fun line => line ++ ['\n']

/-- The registry file. -/
def registryJson (J : JsonEnv) (facts : List RegistryFact) : List Char := J.registry ⟨formatVersion, facts, 0⟩

/-- The value's JSON is one line, not blank, and reads back as the value. -/
def Carried (write : T → List Char) (read : List Char → Except String T) (x : T) : Prop :=
  OneLine (write x) ∧ (trim (write x)).isEmpty = false ∧ read (write x) = .ok x

theorem lines_terminated : ∀ {ls : List (List Char)}, (∀ l ∈ ls, OneLine l) →
    lines (ls.flatMap fun line => line ++ ['\n']) = ls
  | [], _ => rfl
  | l :: ls, h => by
    rw [List.flatMap_cons, List.append_assoc, List.singleton_append, lines_append _ (h l List.mem_cons_self),
      lines_terminated fun m hm => h m (List.mem_cons_of_mem _ hm)]

variable {J : JsonEnv} {write : T → List Char} {read : List Char → Except String T}

/-- Every record is read back, in order. -/
theorem readRecords_written (file : String) : ∀ {records : List T} (n : ℕ) (out : List T),
    (∀ r ∈ records, Carried write read r) → out.length + records.length ≤ maxCaseRecords →
    readRecords read file n out (records.map write) = .ok (out ++ records)
  | [], _, out, _, _ => by simp [readRecords]
  | r :: records, n, out, h, hlen => by
    obtain ⟨-, hblank, hread⟩ := h r List.mem_cons_self
    have hroom : ¬ maxCaseRecords ≤ out.length := by
      rw [List.length_cons] at hlen
      omega
    have hrest : (out ++ [r]).length + records.length ≤ maxCaseRecords := by
      simp only [List.length_append, List.length_cons, List.length_nil] at hlen ⊢
      omega
    rw [List.map_cons, readRecords, if_neg (by rw [hblank]; decide), if_neg hroom, hread]
    show readRecords read file (n + 1) (out ++ [r]) (records.map write) = _
    rw [readRecords_written file (n + 1) _ (fun x hx => h x (List.mem_cons_of_mem _ hx)) hrest, List.append_assoc,
      List.singleton_append]

/-- **A written file is evidence of its records.** -/
theorem evidence_writeJsonl {kind : String} {ref : FileRef} {records : List T}
    (hheader : Carried (fun h : ℕ × String => J.header h.1 h.2) J.readHeader (formatVersion, kind))
    (hrecords : ∀ r ∈ records, Carried write read r) (hcount : ref.records = records.length)
    (hlen : records.length ≤ maxCaseRecords) :
    evidence J read kind (some ref) (some (writeJsonl J kind write records)) = .ok (some records) := by
  obtain ⟨hline, -, hread⟩ := hheader
  have hlines : lines (writeJsonl J kind write records) = J.header formatVersion kind :: records.map write := by
    refine lines_terminated (List.forall_mem_cons.mpr ⟨hline, fun l hl => ?_⟩)
    obtain ⟨r, hr, rfl⟩ := List.mem_map.mp hl
    exact (hrecords r hr).1
  have hhead : checkHeader J ref.file (J.header formatVersion kind) kind = .ok () := by
    unfold checkHeader
    rw [hread]
    simp
  have hall := readRecords_written ref.file 0 [] hrecords (by simpa using hlen)
  unfold evidence
  simp only [hlines, hhead, bind, Except.bind, hall, List.nil_append, hcount]
  simp
  rfl

end Jsonl

/-- The registry file of a domain within its bounds is taken back. -/
theorem parseRegistry_written {J : JsonEnv} {facts : List RegistryFact}
    (hread : J.readRegistry (registryJson J facts) = .ok ⟨formatVersion, facts, 0⟩)
    (hcount : facts.length ≤ maxRegistryFacts) (hvalues : ∀ f ∈ facts, f.value.utf8ByteSize ≤ maxValueBytes) :
    parseRegistry J (some (registryJson J facts)) = .ok (some ⟨formatVersion, facts, 0⟩) := by
  have hfind : (facts.find? fun f => decide (maxValueBytes < f.value.utf8ByteSize)) = none := by
    rw [List.find?_eq_none]
    intro f hf
    have := hvalues f hf
    simpa using this
  unfold parseRegistry
  simp only [hread, if_neg (Nat.not_lt.mpr hcount), hfind, lt_irrefl, if_false]

theorem checkPointer_self (key file : String) : checkPointer key (some file) file = .ok () := by
  unfold checkPointer
  exact if_pos rfl

/-- Records the window and the ceiling hold pass. -/
theorem validated_ok {J : JsonEnv} {stem : String} {front : FrontMatter} {logs : List LogEntry} {spans : List SpanEntry}
    {registry : List Char} {block : Option RegistryBlock}
    (htotal : logs.length + spans.length ≤ maxCaseRecords)
    (hlogs : validateSeqs LogEntry.seq "logdata" (some logs) front = .ok ())
    (hspans : validateSeqs SpanEntry.seq "spandata" (some spans) front = .ok ())
    (hregistry : parseRegistry J (some registry) = .ok block) :
    validated J stem front (some logs) (some spans) (some registry) =
      .ok ⟨stem, front, some logs, some spans, block, htotal, hlogs, hspans⟩ := by
  unfold validated
  rw [dif_pos (show ((some logs).getD []).length + ((some spans).getD []).length ≤ maxCaseRecords from htotal)]
  split
  · rename_i e he
    rw [hlogs] at he
    exact absurd he (by simp)
  · split
    · rename_i e he
      rw [hspans] at he
      exact absurd he (by simp)
    · simp only [hregistry]

/-- The files of a case whose evidence was not omitted. -/
def caseBytes (D : ReadEnv) (J : JsonEnv) (i : CaseInput) (sections : List Char) (logs : List LogEntry)
    (spans : List SpanEntry) (facts : List RegistryFact) : CaseBytes where
  stem := i.stem
  document := render D i sections
  logdata := some (writeJsonl J "logdata" J.log logs)
  spandata := some (writeJsonl J "spandata" J.span spans)
  registry := some (registryJson J facts)

/-- What JSON and RFC 3339 have to give back of a case. -/
structure CaseCarried (D : ReadEnv) (J : JsonEnv) (i : CaseInput) (logs : List LogEntry) (spans : List SpanEntry)
    (facts : List RegistryFact) : Prop where
  captured : D.parseRfc3339 (D.toRfc3339 i.capturedAt) = some i.capturedAt
  anchor : D.parseRfc3339 (D.toRfc3339 i.anchor.time) = some i.anchor.time
  header : ∀ kind ∈ ["logdata", "spandata"], Carried (fun h : ℕ × String => J.header h.1 h.2) J.readHeader (formatVersion, kind)
  logs : ∀ e ∈ logs, Carried J.log J.readLog e
  spans : ∀ s ∈ spans, Carried J.span J.readSpan s
  registry : J.readRegistry (registryJson J facts) = .ok ⟨formatVersion, facts, 0⟩

/-- What a capture promises of the case it writes. -/
structure CaseFits (i : CaseInput) (logs : List LogEntry) (spans : List SpanEntry) (facts : List RegistryFact) :
    Prop where
  stem : SafeStem i.stem
  incarnation : i.incarnation ≠ some "null"
  fits : i.Fits
  logdata : ∃ c, i.logdata = some ⟨logdataName i.stem, logs.length, c⟩
  spandata : ∃ c, i.spandata = some ⟨spandataName i.stem, spans.length, c⟩
  window : i.window.fromSeq ≤ i.window.toSeq
  total : logs.length + spans.length ≤ maxCaseRecords
  logs_asc : Asc LogEntry.seq logs
  logs_inside : ∀ e ∈ logs, i.window.fromSeq ≤ e.seq ∧ e.seq ≤ i.window.toSeq
  spans_asc : Asc SpanEntry.seq spans
  spans_inside : ∀ s ∈ spans, i.window.fromSeq ≤ s.seq ∧ s.seq ≤ i.window.toSeq
  facts_le : facts.length ≤ maxRegistryFacts
  values_le : ∀ f ∈ facts, f.value.utf8ByteSize ≤ maxValueBytes

/-- **What is written is accepted**, with every record as it was. -/
theorem load_written {D : ReadEnv} {J : JsonEnv} {i : CaseInput} (sections : List Char) {logs : List LogEntry}
    {spans : List SpanEntry} {facts : List RegistryFact} (hfits : CaseFits i logs spans facts)
    (hcarried : CaseCarried D J i logs spans facts) :
    ∃ c : LoadedCase, load D J (caseBytes D J i sections logs spans facts) = .ok c ∧ c.front = i.recovered ∧
      c.logs = some logs ∧ c.spans = some spans := by
  have hfront : readFrontMatter D (render D i sections) = .ok i.recovered := by
    have hparse := parseFrontMatter_recovered (D := D) sections hfits.stem hfits.incarnation hfits.fits
      hcarried.captured hcarried.anchor
    unfold readFrontMatter
    simp only [hparse, Option.get_some]
  obtain ⟨logCounts, hlogdata⟩ := hfits.logdata
  obtain ⟨spanCounts, hspandata⟩ := hfits.spandata
  have hlogref : i.recovered.logdata = some ⟨logdataName i.stem, logs.length, logCounts⟩ := hlogdata
  have hspanref : i.recovered.spandata = some ⟨spandataName i.stem, spans.length, spanCounts⟩ := hspandata
  have htotal := hfits.total
  have hlogs : evidence J J.readLog "logdata" (some ⟨logdataName i.stem, logs.length, logCounts⟩)
      (some (writeJsonl J "logdata" J.log logs)) = .ok (some logs) :=
    evidence_writeJsonl (hcarried.header "logdata" (by simp)) hcarried.logs rfl (by omega)
  have hspans : evidence J J.readSpan "spandata" (some ⟨spandataName i.stem, spans.length, spanCounts⟩)
      (some (writeJsonl J "spandata" J.span spans)) = .ok (some spans) :=
    evidence_writeJsonl (hcarried.header "spandata" (by simp)) hcarried.spans rfl (by omega)
  have hlogseqs : validateSeqs LogEntry.seq "logdata" (some logs) i.recovered = .ok () :=
    validateSeqs_ok.mpr ⟨hfits.window, hfits.logs_asc, hfits.logs_inside⟩
  have hspanseqs : validateSeqs SpanEntry.seq "spandata" (some spans) i.recovered = .ok () :=
    validateSeqs_ok.mpr ⟨hfits.window, hfits.spans_asc, hfits.spans_inside⟩
  have hvalidated := @validated_ok J i.stem _ _ _ _ _ htotal hlogseqs hspanseqs
    (parseRegistry_written hcarried.registry hfits.facts_le hfits.values_le)
  refine ⟨⟨i.stem, i.recovered, some logs, some spans, some ⟨formatVersion, facts, 0⟩, htotal, hlogseqs, hspanseqs⟩,
    ?_, rfl, rfl, rfl⟩
  unfold load caseBytes
  simp only [hfront, hlogref, hspanref, Option.map_some, checkPointer_self, bind, Except.bind, hlogs, hspans]
  exact hvalidated

/-! ### A sample -/

/-- A record as the samples have them. -/
def sampleLog (n : ℕ) : LogEntry := { LogEntry.blank n with timestamp := 1785506527, message := "stalled" }

/-- Its JSON. -/
def sampleText (n : ℕ) : List Char :=
  "\x7b\"seq\":".toList ++ decimal n ++ ",\"timestamp\":".toList ++ "\"2026-07-31T14:02:07Z\"".toList ++
    ",\"level\":\"Info\"".toList ++ ",\"message\":\"stalled\"".toList ++ ",\"full_message\":null".toList ++
    ",\"host\":\"\"".toList ++ ",\"facility\":null".toList ++ ",\"file\":null,\"line\":null".toList ++
    ",\"additional_fields\":\x7b\x7d".toList ++ ",\"matched_filters\":[]".toList ++
    ",\"source\":\"Filter\"\x7d".toList

def sampleHeader (kind : String) : List Char :=
  "\x7b\"logmon_format\":1,\"kind\":\"".toList ++ kind.toList ++ "\"\x7d".toList

def emptyRegistry : List Char := "\x7b\"dropped\":0,\"facts\":[],\"logmon_format\":1\x7d".toList

/-- JSON on the files of a case with two such records, no span and no fact. -/
def sampleJson : JsonEnv where
  header _ kind := sampleHeader kind
  readHeader t :=
    if t = sampleHeader "logdata" then .ok (1, "logdata")
    else if t = sampleHeader "spandata" then .ok (1, "spandata") else .error "expected value at line 1 column 1"
  log e := sampleText e.seq
  readLog t :=
    if t = sampleText 1 then .ok (sampleLog 1)
    else if t = sampleText 514 then .ok (sampleLog 514) else .error "expected value at line 1 column 1"
  span _ := []
  readSpan _ := .error "EOF while parsing a value at line 1 column 0"
  registry _ := emptyRegistry
  readRegistry t := if t = emptyRegistry then .ok ⟨1, [], 0⟩ else .error "expected value at line 1 column 1"

theorem sampleJson_header : ∀ kind ∈ ["logdata", "spandata"],
    Carried (fun h : ℕ × String => sampleJson.header h.1 h.2) sampleJson.readHeader (formatVersion, kind) := by
  simp only [List.forall_mem_cons]
  exact ⟨⟨by decide +kernel, by decide +kernel, by decide +kernel⟩,
    ⟨by decide +kernel, by decide +kernel, by decide +kernel⟩, List.forall_mem_nil _⟩

theorem sampleJson_log : ∀ e ∈ [sampleLog 1, sampleLog 514], Carried sampleJson.log sampleJson.readLog e := by
  simp only [List.forall_mem_cons]
  exact ⟨⟨by decide +kernel, by decide +kernel, by decide +kernel⟩,
    ⟨by decide +kernel, by decide +kernel, by decide +kernel⟩, List.forall_mem_nil _⟩

end Cases
end Logmon
