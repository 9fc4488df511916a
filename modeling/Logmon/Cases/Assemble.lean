/-
# A loaded case can be assembled

What `load` accepts goes into two rings, and each ring asserts that its
records ascend. Every record a case carries was checked against the declared
window, in order (`validateSeqs`), and counted against its pointer
(`evidence`); so the assertions hold of every loaded case. The window itself
is checked beside a file's records: a document that points at no file is never
asked whether its window is inverted.

Key definitions: `ascendingPairs`, `LoadedCase.Assembles`.
Key theorems: `load_ok`, `evidence_count`, `loaded_assembles_iff`.
-/
import Logmon.Cases.Postmortem

namespace Logmon
namespace Cases

open Lib

/-- What `from_records` asserts: `windows(2).all(|w| w[0].seq < w[1].seq)`. -/
def ascendingPairs {T : Type} (seq : T → ℕ) (records : List T) : Bool :=
  (records.zip records.tail).all fun w => decide (seq w.1 < seq w.2)

theorem ascendingPairs_of_asc {T : Type} {seq : T → ℕ} : ∀ {records : List T}, Asc seq records →
    ascendingPairs seq records = true
  | [], _ => rfl
  | [_], _ => rfl
  | a :: b :: rest, h => by
    obtain ⟨hlt, hrest⟩ := asc_cons.mp h
    have ih : ascendingPairs seq (b :: rest) = true := ascendingPairs_of_asc hrest
    have hstep : ascendingPairs seq (a :: b :: rest) = (decide (seq a < seq b) && ascendingPairs seq (b :: rest)) :=
      rfl
    rw [hstep, ih, decide_eq_true (hlt b List.mem_cons_self)]
    rfl

/-! ### What a load establishes -/

variable {D : ReadEnv} {J : JsonEnv} {bytes : CaseBytes} {c : LoadedCase}

/-- As many records as the pointer declares, and none without a pointer. -/
theorem evidence_count {T : Type} {readRecord : List Char → Except String T} {key : String} {declared : Option FileRef}
    {file : Option (List Char)} {out : Option (List T)} (h : evidence J readRecord key declared file = .ok out) :
    out.map List.length = declared.map FileRef.records := by
  unfold evidence at h
  split at h
  · obtain rfl := Except.ok.inj h
    rfl
  · cases h
  · rename_i d text
    split at h
    · cases h
    · rename_i header ls _
      cases hheader : checkHeader J d.file header key with
      | error e => simp [hheader, bind, Except.bind] at h
      | ok _ =>
        cases hrecords : readRecords readRecord d.file 0 [] ls with
        | error e => simp [hheader, hrecords, bind, Except.bind] at h
        | ok records =>
          simp only [hheader, hrecords, bind, Except.bind] at h
          split_ifs at h with hcount
          obtain rfl := Except.ok.inj h
          simpa using hcount

/-- A validated case carries what it was given. -/
theorem fields_of_validated {stem : String} {front : FrontMatter} {logs : Option (List LogEntry)}
    {spans : Option (List SpanEntry)} {registry : Option (List Char)}
    (h : validated J stem front logs spans registry = .ok c) : c.front = front ∧ c.logs = logs ∧ c.spans = spans := by
  unfold validated at h
  split at h
  · split at h
    · cases h
    · split at h
      · cases h
      · split at h
        · cases h
        · obtain rfl := Except.ok.inj h
          exact ⟨rfl, rfl, rfl⟩
  · cases h

/-- **What a load reads**: the document's front matter, and each file under
its pointer. -/
theorem load_ok (h : load D J bytes = .ok c) : readFrontMatter D bytes.document = .ok c.front ∧
    evidence J J.readLog "logdata" c.front.logdata bytes.logdata = .ok c.logs ∧
    evidence J J.readSpan "spandata" c.front.spandata bytes.spandata = .ok c.spans := by
  unfold load at h
  split at h
  · cases h
  · rename_i front hfront
    cases hlogref : checkPointer "logdata" (front.logdata.map FileRef.file) (logdataName bytes.stem) with
    | error e => simp [hlogref, bind, Except.bind] at h
    | ok _ =>
      cases hspanref : checkPointer "spandata" (front.spandata.map FileRef.file) (spandataName bytes.stem) with
      | error e => simp [hlogref, hspanref, bind, Except.bind] at h
      | ok _ =>
        cases hlogs : evidence J J.readLog "logdata" front.logdata bytes.logdata with
        | error e => simp [hlogref, hspanref, hlogs, bind, Except.bind] at h
        | ok logs =>
          cases hspans : evidence J J.readSpan "spandata" front.spandata bytes.spandata with
          | error e => simp [hlogref, hspanref, hlogs, hspans, bind, Except.bind] at h
          | ok spans =>
            simp only [hlogref, hspanref, hlogs, hspans, bind, Except.bind] at h
            obtain ⟨h1, h2, h3⟩ := fields_of_validated h
            rw [h1, h2, h3]
            exact ⟨hfront, hlogs, hspans⟩

/-! ### Assembling -/

/-- The case is what its document says, and both rings take it: the window is
in order, and the logs and the spans ascend inside it, as many as declared. -/
structure LoadedCase.Assembles (c : LoadedCase) : Prop where
  window : c.fromSeq ≤ c.toSeq
  logs_asc : (c.logs.getD []).Pairwise fun a b => a.seq < b.seq
  logs_inside : ∀ e ∈ c.logs.getD [], c.fromSeq ≤ e.seq ∧ e.seq ≤ c.toSeq
  logs_count : c.logs.map List.length = c.front.logdata.map FileRef.records
  spans_asc : (c.spans.getD []).Pairwise fun a b => a.seq < b.seq
  spans_inside : ∀ e ∈ c.spans.getD [], c.fromSeq ≤ e.seq ∧ e.seq ≤ c.toSeq
  spans_count : c.spans.map List.length = c.front.spandata.map FileRef.records
  logs_assertion : ascendingPairs LogEntry.seq (c.logs.getD []) = true
  spans_assertion : ascendingPairs SpanEntry.seq (c.spans.getD []) = true

/-- Validated records lie inside the window; none need no window. -/
theorem inside_of_validated {T : Type} {seq : T → ℕ} {key : String} {records : Option (List T)} {front : FrontMatter}
    (h : validateSeqs seq key records front = .ok ()) :
    ∀ r ∈ records.getD [], front.seqRange.fromSeq ≤ seq r ∧ seq r ≤ front.seqRange.toSeq := by
  cases records with
  | none => simp
  | some l => exact (validateSeqs_ok.mp h).2.2

/-- A declared file was loaded, and its records asked the window. -/
theorem window_of_validated {T : Type} {seq : T → ℕ} {key : String} {records : Option (List T)} {front : FrontMatter}
    {declared : Option FileRef} (h : validateSeqs seq key records front = .ok ())
    (hcount : records.map List.length = declared.map FileRef.records) (hdeclared : declared.isSome = true) :
    front.seqRange.fromSeq ≤ front.seqRange.toSeq := by
  cases records with
  | none =>
    obtain ⟨d, rfl⟩ := Option.isSome_iff_exists.mp hdeclared
    simp at hcount
  | some l => exact (validateSeqs_ok.mp h).1

/-- **A loaded case assembles exactly when its document points at a file or
its window is in order.** -/
theorem loaded_assembles_iff {front : FrontMatter} (hload : load D J bytes = .ok c)
    (hfront : readFrontMatter D bytes.document = .ok front) :
    c.Assembles ↔ front.logdata.isSome = true ∨ front.spandata.isSome = true ∨
      front.seqRange.fromSeq ≤ front.seqRange.toSeq := by
  obtain ⟨hread, hlogs, hspans⟩ := load_ok hload
  obtain rfl : front = c.front := Except.ok.inj (hfront.symm.trans hread)
  have hlogcount := evidence_count hlogs
  have hspancount := evidence_count hspans
  refine ⟨fun h => .inr (.inr h.window), fun hcond => ?_⟩
  refine ⟨?_, c.logs_asc, inside_of_validated c.logs_valid, hlogcount, c.spans_asc, inside_of_validated c.spans_valid,
    hspancount, ascendingPairs_of_asc c.logs_asc, ascendingPairs_of_asc c.spans_asc⟩
  rcases hcond with hlog | hspan | hwindow
  · exact window_of_validated c.logs_valid hlogcount hlog
  · exact window_of_validated c.spans_valid hspancount hspan
  · exact hwindow

/-- The filtered case assembles. -/
theorem filtered_case_assembles : ∃ c, load sampleEnv sampleJson filteredBytes = .ok c ∧ c.Assembles := by
  obtain ⟨c, hload, hfront, -, -⟩ := load_filtered
  have hlog : filteredInput.recovered.logdata.isSome = true := rfl
  exact ⟨c, hload, (loaded_assembles_iff hload (hfront ▸ (load_ok hload).1)).mpr (.inl hlog)⟩

/-- A document that points at no file, with its window the wrong way round. -/
def invertedInput : CaseInput :=
  { filteredInput with
    window := ⟨9, 3, .complete, [], false, 0, 0⟩
    logdata := none
    spandata := none }

def invertedBytes : CaseBytes where
  stem := invertedInput.stem
  document := render sampleEnv invertedInput []
  logdata := none
  spandata := none
  registry := none

/-- It loads, and says that its window ends before it begins. -/
theorem inverted_case_loads : ∃ c, load sampleEnv sampleJson invertedBytes = .ok c ∧ ¬ c.Assembles := by
  have hfits : invertedInput.Fits :=
    ⟨by decide, by decide, by decide, by decide, by decide, by decide, by decide⟩
  have hread : readFrontMatter sampleEnv (render sampleEnv invertedInput []) = .ok invertedInput.recovered := by
    have hparse := parseFrontMatter_recovered (D := sampleEnv) [] (by decide) (by decide) hfits (by decide) (by decide)
    unfold readFrontMatter
    simp only [hparse, Option.get_some]
  have hload : ∃ c, load sampleEnv sampleJson invertedBytes = .ok c ∧ c.front = invertedInput.recovered := by
    unfold load
    rw [show invertedBytes.document = render sampleEnv invertedInput [] from rfl, hread]
    exact ⟨_, rfl, rfl⟩
  obtain ⟨c, hload, hfront⟩ := hload
  refine ⟨c, hload, fun h => ?_⟩
  have hwindow : c.front.seqRange.fromSeq ≤ c.front.seqRange.toSeq := h.window
  rw [hfront] at hwindow
  exact absurd hwindow (by decide)

end Cases
end Logmon
