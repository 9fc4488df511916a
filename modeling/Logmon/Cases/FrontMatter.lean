/-
# The front matter round trip

The block the renderer writes is lines that read back (`frontMatter_eq`,
`isLine_lines`), so the reader binds them all and takes every field out of them
again: what it recovers of a document is what was written
(`front_matter_round_trip`), whatever the sections after the block say.

Key definitions: `CaseInput.lines`, `CaseInput.Fits`, `CaseInput.recovered`.
Key theorems: `frontMatter_eq`, `parseFrontMatter_render`,
`front_matter_round_trip`.
-/
import Logmon.Cases.Reads

namespace Logmon
namespace Cases

open Lib

variable {D : ReadEnv}

/-! ### The block the renderer writes -/

/-- A number is a word. -/
theorem safeStem_toString (n : ℕ) : SafeStem (toString n) := by
  refine ⟨toString_ne_nil n, fun c hc => ?_⟩
  have hd := isDigit_of_mem_toString hc
  simp [isSafe, Char.isAlphanum, hd]

theorem reads_decimal (n : ℕ) : Reads D (decimal n) (.bare (toString n)) := reads_word (safeStem_toString n)

/-- A flow mapping, as text and as a value. -/
def mapText (es : List Entry) : List Char := '\x7b' :: (joinComma (es.map Entry.written) ++ ['\x7d'])

def mapValue (es : List Entry) : Value := .map (bindAll [] (es.map Entry.binding))

/-- A flow sequence of quoted texts. -/
def seqText (l : List String) : List Char := '[' :: (joinComma (l.map yamlStr) ++ [']'])

def seqValue (l : List String) : Value := .seq (l.map Value.str)

theorem reads_seqText (l : List String) : Reads D (seqText l) (seqValue l) := by
  refine reads_seq ?_
  rw [List.forall₂_map_left_iff, List.forall₂_map_right_iff, List.forall₂_same]
  exact fun s _ => reads_yamlStr s

/-- A field that holds a number, and one that holds a quoted text. -/
def numField (key : String) (n : ℕ) : Entry := field key (decimal n) (.bare (toString n))

def strField (key : String) (s : String) : Entry := field key (yamlStr s) (.str s)

def wordField (key : String) (w : String) : Entry := field key w.toList (.bare w)

def anchorFields (D : ReadEnv) (a : Anchor) : List Entry :=
  [wordField "kind" a.kind.word, strField "value" a.label, numField "seq" a.seq, strField "at" (D.toRfc3339 a.time)]

def rangeFields (w : Window) : List Entry :=
  [numField "from" w.fromSeq, numField "to" w.toSeq, numField "requested_before_missing" w.shortBefore,
    numField "requested_after_missing" w.shortAfter, wordField "clamped" (if w.clamped then "true" else "false")]

def sourceFields (c : SourceCounts) : List Entry :=
  [numField "filter" c.filter, numField "pre_trigger" c.preTrigger, numField "post_trigger" c.postTrigger]

def fileFields (p : FileRef) : List Entry :=
  [strField "file" p.file, numField "records" p.records] ++
    (p.bySource.map fun c => field "by_source" (mapText (sourceFields c)) (mapValue (sourceFields c))).toList

def narrowedFields (n : NarrowedSpan) : List Entry :=
  [numField "from" n.fromSeq, numField "to" n.toSeq, field "filters" (seqText n.filters) (seqValue n.filters)]

/-- How much of the core is there, in words. -/
def coreWords (i : CaseInput) : String :=
  toString (coreCoverage i.registry).1 ++ " of " ++ toString coreKeys.length

def provenanceFields (i : CaseInput) : List Entry :=
  [strField "core" (coreWords i),
    field "missing" (seqText (coreCoverage i.registry).2) (seqValue (coreCoverage i.registry).2)]

def assertedFields (i : CaseInput) : List Entry :=
  i.asserted.map fun f => ⟨yamlStr f.key, f.key, yamlStr f.value, .str f.value⟩

/-- The line of a flow mapping. -/
def mapLine (key : String) (es : List Entry) : Entry := field key (mapText es) (mapValue es)

def incarnationField : Option String → Entry
  | some v => strField "incarnation" v
  | none => wordField "incarnation" "null"

/-- The lines of the block, each with what it binds. -/
def CaseInput.lines (D : ReadEnv) (i : CaseInput) : List Entry :=
  [wordField "case" i.stem, numField "logmon_format" formatVersion,
    strField "captured_at" (D.toRfc3339 i.capturedAt), strField "domain" i.domain,
    incarnationField i.incarnation,
    strField "reason" i.reason, mapLine "anchor" (anchorFields D i.anchor), strField "headline" i.anchor.message,
    wordField "verdict" (verdictStr i.window.verdict), mapLine "seq_range" (rangeFields i.window)] ++
  (i.logdata.map fun p => mapLine "logdata" (fileFields p)).toList ++
  (i.spandata.map fun p => mapLine "spandata" (fileFields p)).toList ++
  [field "narrowed_by" ('[' :: (joinComma (i.window.narrowedBy.map fun n => mapText (narrowedFields n)) ++ [']']))
      (.seq (i.window.narrowedBy.map fun n => mapValue (narrowedFields n))),
    mapLine "provenance" (provenanceFields i), mapLine "asserted" (assertedFields i)]

theorem yamlStr_coreWords (i : CaseInput) : yamlStr (coreWords i) =
    '"' :: (decimal (coreCoverage i.registry).1 ++ " of ".toList ++ decimal coreKeys.length ++ ['"']) := by
  have hplain : ∀ l : List Char, (∀ c ∈ l, yamlEscape c = [c]) → l.flatMap yamlEscape = l := by
    intro l hl
    induction l with
    | nil => rfl
    | cons c l ih =>
      rw [List.flatMap_cons, hl c List.mem_cons_self, ih fun d hd => hl d (List.mem_cons_of_mem _ hd)]
      rfl
  have hdigit : ∀ n < 128, (Char.ofNat n).isDigit = true → yamlEscape (Char.ofNat n) = [Char.ofNat n] := by decide
  have hnum : ∀ n : ℕ, ∀ c ∈ (toString n).toList, yamlEscape c = [c] := by
    intro n c hc
    have hsafe := (safeStem_toString n).2 c hc
    have := hdigit c.toNat (isSafe_lt hsafe)
    rw [Char.ofNat_toNat] at this
    exact this (isDigit_of_mem_toString hc)
  rw [yamlStr, hplain]
  · simp [coreWords, decimal]
  · intro c hc
    simp only [coreWords, String.toList_append, List.mem_append] at hc
    rcases hc with (hc | hc) | hc
    · exact hnum _ c hc
    · have hword : (" of ".toList.all fun c => yamlEscape c = [c]) = true := by decide
      simpa using List.all_eq_true.mp hword c hc
    · exact hnum _ c hc

theorem filePointer_eq (key : String) (p : FileRef) :
    filePointer key p = (mapLine key (fileFields p)).written ++ ['\n'] := by
  obtain ⟨file, records, bySource⟩ := p
  cases bySource with
  | none =>
    simp [filePointer, mapLine, field, mapText, fileFields, Entry.written, strField, numField, joinComma_cons, commaTail]
  | some c =>
    simp [filePointer, mapLine, field, mapText, fileFields, Entry.written, strField, numField, joinComma_cons, commaTail,
      sourceFields]

theorem narrowedRange_eq (n : NarrowedSpan) : narrowedRange n = mapText (narrowedFields n) := by
  unfold narrowedRange mapText narrowedFields seqText
  generalize joinComma (n.filters.map yamlStr) = t
  simp [Entry.written, numField, field, joinComma_cons, commaTail]

theorem asserted_eq (i : CaseInput) :
    (i.asserted.map fun f => yamlStr f.key ++ ": ".toList ++ yamlStr f.value) =
      (assertedFields i).map Entry.written := by
  simp [assertedFields, Entry.written]

/-- A key, its colon, a text and the line's end. -/
theorem line_eq {start : List Char} {key : String} (h : start = key.toList ++ ": ".toList) (t : List Char) (v : Value) :
    start ++ t ++ "\n".toList = (field key t v).written ++ ['\n'] := by
  rw [h]
  simp [field, Entry.written]

theorem anchor_line (a : Anchor) :
    "anchor: \x7bkind: ".toList ++ a.kind.word.toList ++ ", value: ".toList ++ yamlStr a.label ++
      ", seq: ".toList ++ decimal a.seq ++ ", at: ".toList ++ yamlStr (D.toRfc3339 a.time) ++ "\x7d\n".toList =
      (mapLine "anchor" (anchorFields D a)).written ++ ['\n'] := by
  unfold mapLine mapText anchorFields
  simp [Entry.written, numField, strField, wordField, field, joinComma_cons, commaTail]

theorem range_line (w : Window) :
    "seq_range: \x7bfrom: ".toList ++ decimal w.fromSeq ++ ", to: ".toList ++ decimal w.toSeq ++
      ", requested_before_missing: ".toList ++ decimal w.shortBefore ++
      ", requested_after_missing: ".toList ++ decimal w.shortAfter ++
      ", clamped: ".toList ++ (if w.clamped then "true" else "false").toList ++ "\x7d\n".toList =
      (mapLine "seq_range" (rangeFields w)).written ++ ['\n'] := by
  unfold mapLine mapText rangeFields wordField
  generalize (if w.clamped then "true" else "false").toList = t
  simp [Entry.written, numField, field, joinComma_cons, commaTail]

theorem provenance_line (i : CaseInput) :
    "provenance: \x7bcore: \"".toList ++ decimal (coreCoverage i.registry).1 ++ " of ".toList ++
      decimal coreKeys.length ++ "\", missing: [".toList ++ joinComma ((coreCoverage i.registry).2.map yamlStr) ++
      "]\x7d\n".toList = (mapLine "provenance" (provenanceFields i)).written ++ ['\n'] := by
  unfold mapLine mapText provenanceFields seqText strField
  rw [yamlStr_coreWords]
  generalize joinComma ((coreCoverage i.registry).2.map yamlStr) = t
  generalize decimal (coreCoverage i.registry).1 = u
  generalize decimal coreKeys.length = w
  simp [Entry.written, field, joinComma_cons, commaTail]

theorem incarnation_line (o : Option String) :
    "incarnation: ".toList ++ incarnationText o ++ "\n".toList = (incarnationField o).written ++ ['\n'] := by
  cases o with
  | none => exact @line_eq "incarnation: ".toList "incarnation" rfl _ _
  | some v => exact @line_eq "incarnation: ".toList "incarnation" rfl _ _

theorem evidencePointer_eq (key : String) (o : Option FileRef) : evidencePointer key o =
    (o.map fun p => mapLine key (fileFields p)).toList.flatMap fun e => e.written ++ ['\n'] := by
  cases o with
  | none => rfl
  | some p => simp [evidencePointer, filePointer_eq]

theorem narrowed_line (l : List NarrowedSpan) :
    "narrowed_by: [".toList ++ joinComma (l.map narrowedRange) ++ "]\n".toList =
      (field "narrowed_by" ('[' :: (joinComma (l.map fun n => mapText (narrowedFields n)) ++ [']']))
        (.seq (l.map fun n => mapValue (narrowedFields n)))).written ++ ['\n'] := by
  rw [show narrowedRange = fun n => mapText (narrowedFields n) from funext narrowedRange_eq]
  generalize joinComma (l.map fun n => mapText (narrowedFields n)) = t
  simp [field, Entry.written]

theorem asserted_line (i : CaseInput) :
    "asserted: \x7b".toList ++
      joinComma (i.asserted.map fun f => yamlStr f.key ++ ": ".toList ++ yamlStr f.value) ++ "\x7d\n".toList =
      (mapLine "asserted" (assertedFields i)).written ++ ['\n'] := by
  rw [asserted_eq]
  unfold mapLine mapText
  generalize joinComma ((assertedFields i).map Entry.written) = t
  simp [field, Entry.written]

/-- **What the renderer writes is the lines between the fences.** -/
theorem frontMatter_eq (i : CaseInput) : frontMatter D i =
    "---\n".toList ++ ((i.lines D).flatMap fun e => e.written ++ ['\n']) ++ "---\n\n".toList := by
  unfold frontMatter CaseInput.lines
  simp only [incarnation_line, evidencePointer_eq, narrowed_line, asserted_line, anchor_line, range_line,
    provenance_line]
  rw [@line_eq "case: ".toList "case" rfl _ (.bare i.stem),
    @line_eq "logmon_format: ".toList "logmon_format" rfl _ (.bare (toString formatVersion)),
    @line_eq "captured_at: ".toList "captured_at" rfl _ (.str (D.toRfc3339 i.capturedAt)),
    @line_eq "domain: ".toList "domain" rfl _ (.str i.domain),
    @line_eq "reason: ".toList "reason" rfl _ (.str i.reason),
    @line_eq "headline: ".toList "headline" rfl _ (.str i.anchor.message),
    @line_eq "verdict: ".toList "verdict" rfl _ (.bare (verdictStr i.window.verdict))]
  simp only [List.flatMap_append, List.flatMap_cons, List.flatMap_nil, List.append_assoc, List.append_nil]
  rfl

/-! ### The fields come back -/

theorem reads_mapText {es : List Entry} (h : ∀ e ∈ es, e.Reads D) : Reads D (mapText es) (mapValue es) := reads_map h

theorem reads_numField {key : String} (hkey : SafeStem key) (n : ℕ) : (numField key n).Reads D :=
  reads_field hkey (reads_decimal n)

theorem reads_strField {key : String} (hkey : SafeStem key) (s : String) : (strField key s).Reads D :=
  reads_field hkey (reads_yamlStr s)

theorem reads_wordField {key w : String} (hkey : SafeStem key) (hw : SafeStem w) : (wordField key w).Reads D :=
  reads_field hkey (reads_word hw)

theorem reads_anchorFields (a : Anchor) : ∀ e ∈ anchorFields D a, e.Reads D := by
  have hkind : SafeStem a.kind.word := by cases a.kind <;> decide
  simp only [anchorFields, List.forall_mem_cons]
  exact ⟨reads_wordField (by decide) hkind, reads_strField (by decide) _, reads_numField (by decide) _,
    reads_strField (by decide) _, List.forall_mem_nil _⟩

theorem reads_rangeFields (w : Window) : ∀ e ∈ rangeFields w, e.Reads D := by
  have hbool : SafeStem (if w.clamped then "true" else "false") := by cases w.clamped <;> decide
  simp only [rangeFields, List.forall_mem_cons]
  exact ⟨reads_numField (by decide) _, reads_numField (by decide) _, reads_numField (by decide) _,
    reads_numField (by decide) _, reads_wordField (by decide) hbool, List.forall_mem_nil _⟩

theorem reads_sourceFields (c : SourceCounts) : ∀ e ∈ sourceFields c, e.Reads D := by
  simp only [sourceFields, List.forall_mem_cons]
  exact ⟨reads_numField (by decide) _, reads_numField (by decide) _, reads_numField (by decide) _,
    List.forall_mem_nil _⟩

theorem reads_fileFields (p : FileRef) : ∀ e ∈ fileFields p, e.Reads D := by
  intro e he
  simp only [fileFields, List.mem_append, List.mem_cons, List.not_mem_nil, or_false, Option.mem_toList,
    Option.map_eq_some_iff] at he
  rcases he with (rfl | rfl) | ⟨c, -, rfl⟩
  · exact reads_strField (by decide) _
  · exact reads_numField (by decide) _
  · exact reads_field (by decide) (reads_mapText (reads_sourceFields c))

theorem reads_narrowedFields (n : NarrowedSpan) : ∀ e ∈ narrowedFields n, e.Reads D := by
  simp only [narrowedFields, List.forall_mem_cons]
  exact ⟨reads_numField (by decide) _, reads_numField (by decide) _, reads_field (by decide) (reads_seqText _),
    List.forall_mem_nil _⟩

theorem reads_provenanceFields (i : CaseInput) : ∀ e ∈ provenanceFields i, e.Reads D := by
  simp only [provenanceFields, List.forall_mem_cons]
  exact ⟨reads_strField (by decide) _, reads_field (by decide) (reads_seqText _),
    List.forall_mem_nil _⟩

theorem reads_assertedFields (i : CaseInput) : ∀ e ∈ assertedFields i, e.Reads D := by
  intro e he
  obtain ⟨f, -, rfl⟩ := List.mem_map.mp he
  exact ⟨readsKey_yamlStr f.key, reads_yamlStr f.value⟩

theorem isLine_field {key : String} (hkey : SafeStem key ∧ key.toList.head? ≠ some '-') {t : List Char} {v : Value}
    (h : Reads D t v) : (field key t v).IsLine D := ⟨rfl, hkey.1, hkey.2, h⟩

theorem isLine_incarnation (o : Option String) : (incarnationField o).IsLine D := by
  cases o with
  | none => exact isLine_field (by decide) (reads_word (by decide))
  | some v => exact isLine_field (by decide) (reads_yamlStr v)

/-- **Every line is one, and reads as what it binds.** -/
theorem isLine_lines {i : CaseInput} (hstem : SafeStem i.stem) : ∀ e ∈ i.lines D, e.IsLine D := by
  have hverdict : SafeStem (verdictStr i.window.verdict) := by cases i.window.verdict <;> decide
  have hnarrowed : Reads D ('[' :: (joinComma (i.window.narrowedBy.map fun n => mapText (narrowedFields n)) ++ [']']))
      (.seq (i.window.narrowedBy.map fun n => mapValue (narrowedFields n))) := by
    refine reads_seq ?_
    rw [List.forall₂_map_left_iff, List.forall₂_map_right_iff, List.forall₂_same]
    exact fun n _ => reads_mapText (reads_narrowedFields n)
  intro e he
  simp only [CaseInput.lines, List.mem_append, List.mem_cons, List.not_mem_nil, or_false, Option.mem_toList,
    Option.map_eq_some_iff] at he
  rcases he with (((rfl | rfl | rfl | rfl | rfl | rfl | rfl | rfl | rfl | rfl) | ⟨p, -, rfl⟩) | ⟨p, -, rfl⟩) |
    rfl | rfl | rfl
  · exact isLine_field (by decide) (reads_word hstem)
  · exact isLine_field (by decide) (reads_decimal _)
  · exact isLine_field (by decide) (reads_yamlStr _)
  · exact isLine_field (by decide) (reads_yamlStr _)
  · exact isLine_incarnation _
  · exact isLine_field (by decide) (reads_yamlStr _)
  · exact isLine_field (by decide) (reads_mapText (reads_anchorFields _))
  · exact isLine_field (by decide) (reads_yamlStr _)
  · exact isLine_field (by decide) (reads_word hverdict)
  · exact isLine_field (by decide) (reads_mapText (reads_rangeFields _))
  · exact isLine_field (by decide) (reads_mapText (reads_fileFields _))
  · exact isLine_field (by decide) (reads_mapText (reads_fileFields _))
  · exact isLine_field (by decide) hnarrowed
  · exact isLine_field (by decide) (reads_mapText (reads_provenanceFields _))
  · exact isLine_field (by decide) (reads_mapText (reads_assertedFields _))

/-- What the lines bind. -/
def CaseInput.top (D : ReadEnv) (i : CaseInput) : List (String × Value) := bindAll [] ((i.lines D).map Entry.binding)

theorem flatMap_newline : ∀ {ls : List (List Char)}, ls ≠ [] →
    (ls.flatMap fun l => l ++ ['\n']) = unlines ls ++ ['\n']
  | [], h => absurd rfl h
  | [l], _ => by simp [unlines]
  | l :: m :: ls, _ => by
    rw [List.flatMap_cons, flatMap_newline (List.cons_ne_nil m ls), unlines_cons_cons]
    simp

/-- **The reader finds the block and binds its lines.** -/
theorem parseFrontMatter_render {i : CaseInput} (hstem : SafeStem i.stem) (sections : List Char) :
    parseFrontMatter D (render D i sections) = some (FrontMatter.ofTop D (i.top D)) := by
  have hlines := isLine_lines (D := D) hstem
  have hne : (i.lines D).map Entry.written ≠ [] := by simp [CaseInput.lines]
  have hdoc : render D i sections = '-' :: '-' :: '-' :: '\n' ::
      (unlines ((i.lines D).map Entry.written) ++ '\n' :: '-' :: ['-', '-'] ++ ('\n' :: '\n' :: sections)) := by
    have hflat := flatMap_newline hne
    rw [List.flatMap_map] at hflat
    rw [render, frontMatter_eq, hflat]
    simp
  have hclose : textBefore ('\n' :: '-' :: ['-', '-'])
      (unlines ((i.lines D).map Entry.written) ++ '\n' :: '-' :: ['-', '-'] ++ ('\n' :: '\n' :: sections)) =
      some (unlines ((i.lines D).map Entry.written)) := by
    refine textBefore_unlines hne fun l hl => ?_
    obtain ⟨e, he, rfl⟩ := List.mem_map.mp hl
    have hline := hlines e he
    obtain ⟨a, t, hat⟩ := List.exists_cons_of_ne_nil hline.safeKey.1
    have hhead : e.written.head? = e.key.toList.head? := by rw [Entry.written, hline.bareKey, hat]; rfl
    refine ⟨hline.oneLine.1, ?_, ?_⟩
    · rw [hhead, hat]
      simp
    · rw [hhead]
      exact hline.noDash
  have hsplit : lines (unlines ((i.lines D).map Entry.written)) = (i.lines D).map Entry.written := by
    refine lines_unlines fun l hl => ?_
    obtain ⟨e, he, rfl⟩ := List.mem_map.mp hl
    exact ⟨(hlines e he).oneLine, by simp [Entry.written]⟩
  have hfenced : fenced (render D i sections) = .ok (unlines ((i.lines D).map Entry.written), 4) := by
    rw [hdoc]
    unfold fenced
    rw [if_pos (by rfl), show "\n---".toList = '\n' :: '-' :: ['-', '-'] from rfl]
    simp only [List.drop_succ_cons, List.drop_zero, hclose]
  unfold parseFrontMatter
  rw [hfenced]
  simp only [hsplit, readLines_written hlines, Option.map_some]
  rfl

/-- Every number of the input is a `u64`. -/
structure CaseInput.Fits (i : CaseInput) : Prop where
  anchor : i.anchor.seq ≤ u64Max
  fromSeq : i.window.fromSeq ≤ u64Max
  toSeq : i.window.toSeq ≤ u64Max
  shortBefore : i.window.shortBefore ≤ u64Max
  shortAfter : i.window.shortAfter ≤ u64Max
  narrowed : ∀ n ∈ i.window.narrowedBy, n.fromSeq ≤ u64Max ∧ n.toSeq ≤ u64Max
  files : ∀ p ∈ i.logdata.toList ++ i.spandata.toList, p.records ≤ u64Max ∧
    ∀ c ∈ p.bySource, c.filter ≤ u64Max ∧ c.preTrigger ≤ u64Max ∧ c.postTrigger ≤ u64Max

/-- What a reader is to recover of an input: every field that was written. -/
def CaseInput.recovered (i : CaseInput) : FrontMatter where
  stem := i.stem
  logmonFormat := formatVersion
  capturedAt := i.capturedAt
  domain := i.domain
  incarnation := i.incarnation
  reason := i.reason
  anchor := ⟨i.anchor.kind.word, i.anchor.label, i.anchor.seq, i.anchor.time⟩
  headline := i.anchor.message
  verdict := i.window.verdict
  seqRange := ⟨i.window.fromSeq, i.window.toSeq, i.window.shortBefore, i.window.shortAfter, i.window.clamped⟩
  logdata := i.logdata
  spandata := i.spandata
  narrowedBy := some i.window.narrowedBy
  provenance := ⟨coreWords i, (coreCoverage i.registry).2⟩
  asserted := bindAll [] (i.asserted.map fun f => (f.key, f.value))

theorem incarnationField_key (o : Option String) : (incarnationField o).key = "incarnation" := by
  cases o <;> rfl

/-- The block's keys, without those of the evidence the capture omitted. -/
theorem lines_keys (i : CaseInput) : ((i.lines D).map Entry.binding).map Prod.fst =
    ["case", "logmon_format", "captured_at", "domain", "incarnation", "reason", "anchor", "headline", "verdict",
      "seq_range"] ++ (i.logdata.map fun _ => "logdata").toList ++ (i.spandata.map fun _ => "spandata").toList ++
    ["narrowed_by", "provenance", "asserted"] := by
  cases hlog : i.logdata <;> cases hspan : i.spandata <;>
    simp [CaseInput.lines, hlog, hspan, Entry.binding, wordField, numField, strField, mapLine, field,
      incarnationField_key]

theorem lines_keys_nodup (i : CaseInput) : (((i.lines D).map Entry.binding).map Prod.fst).Nodup := by
  rw [lines_keys]
  cases i.logdata <;> cases i.spandata <;> simp only [Option.map_some, Option.map_none, Option.toList] <;> decide

/-- A line's binding is found. -/
theorem lookup_top {i : CaseInput} {e : Entry} (h : e ∈ i.lines D) : lookupKey e.key (i.top D) = some e.value :=
  lookupKey_bindAll [] (lines_keys_nodup i) (List.mem_map_of_mem h)

theorem take_top {i : CaseInput} {e : Entry} (h : e ∈ i.lines D) : take (i.top D) e.key = .ok e.value := by
  rw [take, lookup_top h]

/-- The binding of a mapping's entry is found. -/
theorem sub_fields {es : List Entry} {e : Entry} (hnd : (es.map Entry.key).Nodup) (h : e ∈ es) (outer : String) :
    sub D (bindAll [] (es.map Entry.binding)) outer e.key = .ok e.value := by
  have hkeys : (es.map Entry.binding).map Prod.fst = es.map Entry.key := by
    rw [List.map_map]
    rfl
  have hfound : lookupKey e.key (bindAll [] (es.map Entry.binding)) = some e.value :=
    lookupKey_bindAll [] (by rwa [hkeys]) (List.mem_map_of_mem h)
  rw [sub, hfound]

theorem asU64_decimal {n : ℕ} (h : n ≤ u64Max) (key : String) : asU64 D (.bare (toString n)) key = .ok n := by
  unfold asU64 asText
  simp only [bind, Except.bind, parseNat?_toString h]
  rfl

theorem asTime_str {t : ℤ} (h : D.parseRfc3339 (D.toRfc3339 t) = some t) (key : String) :
    asTime D (.str (D.toRfc3339 t)) key = .ok t := by
  unfold asTime asText
  simp only [bind, Except.bind, h]
  rfl

theorem textItems_seqValue (l : List String) (key wanted : String) :
    textItems D (seqValue l) key wanted = .ok l := by
  show (l.map Value.str).mapM (fun v => asText D v key) = .ok l
  induction l with
  | nil => rfl
  | cons s l ih =>
    rw [List.map_cons, List.mapM_cons, ih]
    rfl

variable {i : CaseInput}

theorem readFormat_top : readFormat D (i.top D) = .ok formatVersion := by
  have htake : take (i.top D) "logmon_format" = .ok (.bare (toString formatVersion)) :=
    take_top (e := numField "logmon_format" formatVersion) (by simp [CaseInput.lines])
  unfold readFormat
  simp only [htake, bind, Except.bind, asU64_decimal (show formatVersion ≤ u64Max by decide)]
  rfl

theorem readAnchor_top (hseq : i.anchor.seq ≤ u64Max)
    (htime : D.parseRfc3339 (D.toRfc3339 i.anchor.time) = some i.anchor.time) :
    readAnchor D (i.top D) = .ok ⟨i.anchor.kind.word, i.anchor.label, i.anchor.seq, i.anchor.time⟩ := by
  have htake : take (i.top D) "anchor" = .ok (mapValue (anchorFields D i.anchor)) :=
    take_top (e := mapLine "anchor" (anchorFields D i.anchor)) (by simp [CaseInput.lines])
  have hnd : ((anchorFields D i.anchor).map Entry.key).Nodup := by
    simp only [anchorFields, List.map_cons, List.map_nil, wordField, strField, numField, field]
    decide
  have hsub : ∀ e ∈ anchorFields D i.anchor,
      sub D (bindAll [] ((anchorFields D i.anchor).map Entry.binding)) "anchor" e.key = .ok e.value :=
    fun e he => sub_fields hnd he "anchor"
  have hkind := hsub (wordField "kind" i.anchor.kind.word) (by simp [anchorFields])
  have hvalue := hsub (strField "value" i.anchor.label) (by simp [anchorFields])
  have hseq' := hsub (numField "seq" i.anchor.seq) (by simp [anchorFields])
  have hat := hsub (strField "at" (D.toRfc3339 i.anchor.time)) (by simp [anchorFields])
  simp only [wordField, strField, numField, field] at hkind hvalue hseq' hat
  unfold readAnchor
  simp only [htake, mapValue, asMap, bind, Except.bind, hkind, hvalue, hseq', hat, asText, asU64_decimal hseq,
    asTime_str htime]
  rfl

theorem readSeqRange_top (h : i.Fits) : readSeqRange D (i.top D) =
    .ok ⟨i.window.fromSeq, i.window.toSeq, i.window.shortBefore, i.window.shortAfter, i.window.clamped⟩ := by
  have htake : take (i.top D) "seq_range" = .ok (mapValue (rangeFields i.window)) :=
    take_top (e := mapLine "seq_range" (rangeFields i.window)) (by simp [CaseInput.lines])
  have hnd : ((rangeFields i.window).map Entry.key).Nodup := by
    simp only [rangeFields, List.map_cons, List.map_nil, wordField, numField, field]
    decide
  have hsub : ∀ e ∈ rangeFields i.window,
      sub D (bindAll [] ((rangeFields i.window).map Entry.binding)) "seq_range" e.key = .ok e.value :=
    fun e he => sub_fields hnd he "seq_range"
  have hfrom := hsub (numField "from" i.window.fromSeq) (by simp [rangeFields])
  have hto := hsub (numField "to" i.window.toSeq) (by simp [rangeFields])
  have hbefore := hsub (numField "requested_before_missing" i.window.shortBefore) (by simp [rangeFields])
  have hafter := hsub (numField "requested_after_missing" i.window.shortAfter) (by simp [rangeFields])
  have hclamped := hsub (wordField "clamped" (if i.window.clamped then "true" else "false")) (by simp [rangeFields])
  have hbool : asBool D (.bare (if i.window.clamped then "true" else "false")) "seq_range" = .ok i.window.clamped := by
    cases i.window.clamped <;> rfl
  simp only [wordField, numField, field] at hfrom hto hbefore hafter hclamped
  unfold readSeqRange
  simp only [htake, mapValue, asMap, bind, Except.bind, hfrom, hto, hbefore, hafter, hclamped, asU64_decimal h.fromSeq,
    asU64_decimal h.toSeq, asU64_decimal h.shortBefore, asU64_decimal h.shortAfter, hbool]
  rfl

theorem readSourceCounts_mapValue {c : SourceCounts}
    (h : c.filter ≤ u64Max ∧ c.preTrigger ≤ u64Max ∧ c.postTrigger ≤ u64Max) (key : String) :
    readSourceCounts D (mapValue (sourceFields c)) key = .ok c := by
  have hnd : ((sourceFields c).map Entry.key).Nodup := by
    simp only [sourceFields, List.map_cons, List.map_nil, numField, field]
    decide
  have hsub : ∀ e ∈ sourceFields c,
      sub D (bindAll [] ((sourceFields c).map Entry.binding)) key e.key = .ok e.value :=
    fun e he => sub_fields hnd he key
  have hfilter := hsub (numField "filter" c.filter) (by simp [sourceFields])
  have hpre := hsub (numField "pre_trigger" c.preTrigger) (by simp [sourceFields])
  have hpost := hsub (numField "post_trigger" c.postTrigger) (by simp [sourceFields])
  simp only [numField, field] at hfilter hpre hpost
  unfold readSourceCounts
  simp only [mapValue, asMap, bind, Except.bind, hfilter, hpre, hpost, asU64_decimal h.1, asU64_decimal h.2.1,
    asU64_decimal h.2.2]
  rfl

/-- An evidence pointer is read back with its split, if it has one. -/
theorem fileRef_fields {p : FileRef} (h : p.records ≤ u64Max ∧
      ∀ c ∈ p.bySource, c.filter ≤ u64Max ∧ c.preTrigger ≤ u64Max ∧ c.postTrigger ≤ u64Max) {key : String}
    {top : List (String × Value)} (hlookup : lookupKey key top = some (mapValue (fileFields p))) :
    fileRef D top key = .ok (some p) := by
  have hkeys : (fileFields p).map Entry.key = ["file", "records"] ++ (p.bySource.map fun _ => "by_source").toList := by
    cases hs : p.bySource <;> simp [fileFields, hs, strField, numField, field]
  have hnd : ((fileFields p).map Entry.key).Nodup := by
    rw [hkeys]
    cases p.bySource <;> simp
  have hsub : ∀ e ∈ fileFields p,
      sub D (bindAll [] ((fileFields p).map Entry.binding)) key e.key = .ok e.value :=
    fun e he => sub_fields hnd he key
  have hfile := hsub (strField "file" p.file) (by simp [fileFields])
  have hrecords := hsub (numField "records" p.records) (by simp [fileFields])
  have hsource : lookupKey "by_source" (bindAll [] ((fileFields p).map Entry.binding)) =
      p.bySource.map fun c => mapValue (sourceFields c) := by
    cases hs : p.bySource with
    | none =>
      rw [lookupKey_bindAll_of_notMem]
      · rfl
      · simp [fileFields, hs, Entry.binding, strField, numField, field]
    | some c =>
      refine lookupKey_bindAll [] ?_ (by simp [fileFields, hs, Entry.binding, strField, numField, field])
      rw [List.map_map]
      exact hnd
  simp only [strField, numField, field] at hfile hrecords
  obtain ⟨file, records, bySource⟩ := p
  unfold fileRef
  simp only [hlookup, mapValue, asMap, bind, Except.bind]
  cases bySource with
  | none =>
    simp only [hsource, Option.map_none, hfile, hrecords, asText, asU64_decimal h.1]
    rfl
  | some c =>
    simp only [hsource, Option.map_some, readSourceCounts_mapValue (h.2 c rfl), Except.map, hfile, hrecords, asText,
      asU64_decimal h.1]
    rfl

theorem fileRef_logdata (h : i.Fits) : fileRef D (i.top D) "logdata" = .ok i.logdata := by
  cases hlog : i.logdata with
  | none =>
    have habsent : lookupKey "logdata" (i.top D) = none := by
      unfold CaseInput.top
      rw [lookupKey_bindAll_of_notMem [] (by rw [lines_keys, hlog]; cases i.spandata <;> simp)]
      rfl
    unfold fileRef
    rw [habsent]
  | some p =>
    exact fileRef_fields (h.files p (by simp [hlog]))
      (lookup_top (e := mapLine "logdata" (fileFields p)) (by simp [CaseInput.lines, hlog]))

theorem fileRef_spandata (h : i.Fits) : fileRef D (i.top D) "spandata" = .ok i.spandata := by
  cases hspan : i.spandata with
  | none =>
    have habsent : lookupKey "spandata" (i.top D) = none := by
      unfold CaseInput.top
      rw [lookupKey_bindAll_of_notMem [] (by rw [lines_keys, hspan]; cases i.logdata <;> simp)]
      rfl
    unfold fileRef
    rw [habsent]
  | some p =>
    exact fileRef_fields (h.files p (by simp [hspan]))
      (lookup_top (e := mapLine "spandata" (fileFields p)) (by simp [CaseInput.lines, hspan]))

theorem readNarrowedSpan_mapValue {n : NarrowedSpan} (h : n.fromSeq ≤ u64Max ∧ n.toSeq ≤ u64Max) :
    readNarrowedSpan D (mapValue (narrowedFields n)) = .ok n := by
  have hnd : ((narrowedFields n).map Entry.key).Nodup := by
    simp only [narrowedFields, List.map_cons, List.map_nil, numField, field]
    decide
  have hsub : ∀ e ∈ narrowedFields n,
      sub D (bindAll [] ((narrowedFields n).map Entry.binding)) "narrowed_by" e.key = .ok e.value :=
    fun e he => sub_fields hnd he "narrowed_by"
  have hfrom := hsub (numField "from" n.fromSeq) (by simp [narrowedFields])
  have hto := hsub (numField "to" n.toSeq) (by simp [narrowedFields])
  have hfilters := hsub (field "filters" (seqText n.filters) (seqValue n.filters)) (by simp [narrowedFields])
  simp only [numField, field] at hfrom hto hfilters
  unfold readNarrowedSpan
  simp only [mapValue, asMap, bind, Except.bind, hfrom, hto, hfilters, textItems_seqValue, asU64_decimal h.1,
    asU64_decimal h.2]
  rfl

/-- The stretches come back, all of them and in order. -/
theorem readNarrowedBy_top (h : i.Fits) : readNarrowedBy D (i.top D) = .ok (some i.window.narrowedBy) := by
  have hlookup : lookupKey "narrowed_by" (i.top D) =
      some (.seq (i.window.narrowedBy.map fun n => mapValue (narrowedFields n))) :=
    lookup_top (e := field "narrowed_by"
      ('[' :: (joinComma (i.window.narrowedBy.map fun n => mapText (narrowedFields n)) ++ [']']))
      (.seq (i.window.narrowedBy.map fun n => mapValue (narrowedFields n)))) (by simp [CaseInput.lines])
  have hitems : ∀ {l : List NarrowedSpan}, (∀ n ∈ l, n.fromSeq ≤ u64Max ∧ n.toSeq ≤ u64Max) →
      (l.map fun n => mapValue (narrowedFields n)).mapM (readNarrowedSpan D) = .ok l := by
    intro l hl
    induction l with
    | nil => rfl
    | cons n l ih =>
      rw [List.map_cons, List.mapM_cons, readNarrowedSpan_mapValue (hl n List.mem_cons_self),
        ih fun m hm => hl m (List.mem_cons_of_mem _ hm)]
      rfl
  unfold readNarrowedBy
  simp only [hlookup, hitems h.narrowed]
  rfl

theorem readProvenance_top :
    readProvenance D (i.top D) = .ok ⟨coreWords i, (coreCoverage i.registry).2⟩ := by
  have htake : take (i.top D) "provenance" = .ok (mapValue (provenanceFields i)) :=
    take_top (e := mapLine "provenance" (provenanceFields i)) (by simp [CaseInput.lines])
  have hnd : ((provenanceFields i).map Entry.key).Nodup := by
    simp only [provenanceFields, List.map_cons, List.map_nil, strField, field]
    decide
  have hsub : ∀ e ∈ provenanceFields i,
      sub D (bindAll [] ((provenanceFields i).map Entry.binding)) "provenance" e.key = .ok e.value :=
    fun e he => sub_fields hnd he "provenance"
  have hcore := hsub (strField "core" (coreWords i)) (by simp [provenanceFields])
  have hmissing := hsub (field "missing" (seqText (coreCoverage i.registry).2) (seqValue (coreCoverage i.registry).2))
    (by simp [provenanceFields])
  simp only [strField, field] at hcore hmissing
  unfold readProvenance
  simp only [htake, mapValue, asMap, bind, Except.bind, hcore, hmissing, textItems_seqValue, asText]
  rfl

/-- The facts come back, each under its key. -/
theorem readAsserted_top :
    readAsserted D (i.top D) = .ok (bindAll [] (i.asserted.map fun f => (f.key, f.value))) := by
  have hlookup : lookupKey "asserted" (i.top D) = some (mapValue (assertedFields i)) :=
    lookup_top (e := mapLine "asserted" (assertedFields i)) (by simp [CaseInput.lines])
  have hvalues : bindAll [] ((assertedFields i).map Entry.binding) =
      (bindAll [] (i.asserted.map fun f => (f.key, f.value))).map fun p => (p.1, Value.str p.2) := by
    rw [bindAll_map]
    simp [assertedFields, Entry.binding, Function.comp_def]
  have htexts : ∀ l : List (String × String), (l.map fun p => (p.1, Value.str p.2)).mapM (fun p =>
      (asText D p.2 "asserted").map fun s => (p.1, s)) = .ok l := by
    intro l
    induction l with
    | nil => rfl
    | cons p l ih =>
      rw [List.map_cons, List.mapM_cons, ih]
      rfl
  unfold readAsserted
  simp only [hlookup, mapValue, asMap, bind, Except.bind, hvalues, htexts]

theorem readIncarnation_top (h : i.incarnation ≠ some "null") : readIncarnation D (i.top D) = .ok i.incarnation := by
  have htake : take (i.top D) (incarnationField i.incarnation).key = .ok (incarnationField i.incarnation).value :=
    take_top (by simp [CaseInput.lines])
  rw [incarnationField_key] at htake
  unfold readIncarnation
  rw [htake]
  cases hinc : i.incarnation with
  | none => rfl
  | some v =>
    have hne : v ≠ "null" := fun he => h (by rw [hinc, he])
    simp only [incarnationField, strField, field, bind, Except.bind, asText, pure, Except.pure, if_neg hne]

theorem readVerdict_top : readVerdict D (i.top D) = .ok i.window.verdict := by
  have htake : take (i.top D) "verdict" = .ok (.bare (verdictStr i.window.verdict)) :=
    take_top (e := wordField "verdict" (verdictStr i.window.verdict)) (by simp [CaseInput.lines])
  unfold readVerdict
  simp only [htake, bind, Except.bind, asText]
  cases i.window.verdict <;> rfl

/-- Every field reads back, whatever follows the block. -/
theorem parseFrontMatter_recovered (sections : List Char) (hstem : SafeStem i.stem)
    (hincarnation : i.incarnation ≠ some "null") (hfits : i.Fits)
    (hcaptured : D.parseRfc3339 (D.toRfc3339 i.capturedAt) = some i.capturedAt)
    (hanchor : D.parseRfc3339 (D.toRfc3339 i.anchor.time) = some i.anchor.time) :
    parseFrontMatter D (render D i sections) = some (.ok i.recovered) := by
  have hcase : take (i.top D) "case" = .ok (.bare i.stem) :=
    take_top (e := wordField "case" i.stem) (by simp [CaseInput.lines])
  have htime : take (i.top D) "captured_at" = .ok (.str (D.toRfc3339 i.capturedAt)) :=
    take_top (e := strField "captured_at" (D.toRfc3339 i.capturedAt)) (by simp [CaseInput.lines])
  have hdomain : take (i.top D) "domain" = .ok (.str i.domain) :=
    take_top (e := strField "domain" i.domain) (by simp [CaseInput.lines])
  have hreason : take (i.top D) "reason" = .ok (.str i.reason) :=
    take_top (e := strField "reason" i.reason) (by simp [CaseInput.lines])
  have hheadline : take (i.top D) "headline" = .ok (.str i.anchor.message) :=
    take_top (e := strField "headline" i.anchor.message) (by simp [CaseInput.lines])
  rw [parseFrontMatter_render hstem]
  unfold FrontMatter.ofTop
  simp only [bind, Except.bind, readFormat_top, readAnchor_top hfits.anchor hanchor, readSeqRange_top hfits,
    readNarrowedBy_top hfits, readProvenance_top, readAsserted_top, readIncarnation_top hincarnation, readVerdict_top,
    hcase, htime, hdomain, hreason, hheadline, asText, asTime_str hcaptured, fileRef_logdata hfits,
    fileRef_spandata hfits]
  rfl

/-- **The front matter round trip.** The reader takes back every field the
renderer wrote, whatever the texts hold and whatever follows the block; a fact
asserted under a key of its own is found under it. -/
theorem front_matter_round_trip (i : CaseInput) (sections : List Char) (hstem : SafeStem i.stem)
    (hincarnation : i.incarnation ≠ some "null") (hfits : i.Fits)
    (hcaptured : D.parseRfc3339 (D.toRfc3339 i.capturedAt) = some i.capturedAt)
    (hanchor : D.parseRfc3339 (D.toRfc3339 i.anchor.time) = some i.anchor.time) :
    parseFrontMatter D (render D i sections) = some (.ok i.recovered) ∧
    ((i.asserted.map ScopedFact.key).Nodup →
      ∀ f ∈ i.asserted, lookupKey f.key i.recovered.asserted = some f.value) := by
  refine ⟨parseFrontMatter_recovered sections hstem hincarnation hfits hcaptured hanchor, fun hnd f hf => ?_⟩
  refine lookupKey_bindAll [] ?_ (List.mem_map_of_mem (f := fun f => (f.key, f.value)) hf)
  rw [List.map_map]
  exact hnd

/-- Two instants, and the text chrono has for them. -/
def sampleEnv : ReadEnv where
  toRfc3339 t := if t = 1785507330 then "2026-07-31T14:15:30+00:00" else "2026-07-31T14:02:07+00:00"
  parseRfc3339 s :=
    if s = "2026-07-31T14:15:30+00:00" then some 1785507330
    else if s = "2026-07-31T14:02:07+00:00" then some 1785506527 else none
  debugStr s := "\"" ++ s ++ "\""
  debugChar c := "'" ++ String.ofList [c] ++ "'"

/-- A capture with quotes, braces, control characters and line ends in its texts. -/
def hostileInput : CaseInput where
  stem := "checkout-hang-260731-141530"
  capturedAt := 1785507330
  domain := "t3"
  incarnation := some "2"
  reason := "he said \"boom\": a,b\x7dc\nline2\ttab\u2028ls\x07bell\n---\n"
  anchor := ⟨.seq, "41022", 41022, 1785506527, "stalled: \x7bawaiting, lock\x7d"⟩
  window := ⟨40672, 41372, .filtered, [⟨40700, 40800, ["l>=warn", "\"a\\b\", c"]⟩, ⟨41000, 41372, ["h=x]"]⟩], true, 3, 7⟩
  logdata := some ⟨"checkout-hang-260731-141530.logdata.jsonl", 700, some ⟨700, 0, 0⟩⟩
  spandata := some ⟨"checkout-hang-260731-141530.spandata.jsonl", 168, none⟩
  registry := ["/Action"]
  asserted := [⟨"@/capture/note", "quoted \"thing\", with a comma"⟩]

theorem front_matter_round_trip_hostile :
    parseFrontMatter sampleEnv (render sampleEnv hostileInput "# stalled\n---\n".toList) =
      some (.ok hostileInput.recovered) :=
  (front_matter_round_trip hostileInput _ (by decide) (by decide)
    ⟨by decide, by decide, by decide, by decide, by decide, by decide, by decide⟩ (by decide) (by decide)).1

end Cases
end Logmon
