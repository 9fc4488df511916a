/-
# The domain a case loads into

`assemble_case_domain` of `daemon/rpc_handler.rs`: the counter stands at the
top of the case's window, the epoch log opens one below its bottom, unfiltered,
and takes two transitions for each stretch the case recorded as narrowed: into
its filters and out of them again. The verdict the case recorded is not asked
for again: an export judges the rebuilt floor and epochs.

What the rebuilt epochs keep is the stretches: where they are recorded in order
and apart, as the renderer writes them, every seq of one is dark
(`dark_of_recorded`), and no export that meets one answers `complete`.

Key definitions: `narrowing`, `LogPipeline.fromRecords`, `assembleCaseDomain`,
`exportLoaded`, `InOrder`.
Key theorems: `dark_of_recorded`, `loaded_complete_meets_no_stretch`.
-/
import Logmon.Cases.Write
import Logmon.Daemon.Export

namespace Logmon

open Lib

/-- The epochs a case's transitions make, after an unfiltered one at the origin. -/
def EpochLog.ofTransitions (origin : ℕ) (transitions : List (ℕ × FilterPolicy)) : EpochLog :=
  ((EpochLog.new origin).observe origin (.new [])).observeAll transitions

/-- A pipeline over a case's records. -/
def LogPipeline.fromRecords (capacity seq origin : ℕ) (transitions : List (ℕ × FilterPolicy))
    (records : List LogEntry) (lostBelow : ℕ) (h : max capacity records.length ≤ u64Max) : LogPipeline where
  store := .fromRecords capacity records lostBelow h
  preBuffer := .new 0
  seq := seq
  epochs := .ofTransitions origin transitions
  events := []

namespace Cases

/-- Into a stretch's filters where it begins, and out of them one past its end. -/
def transitionsOf (n : NarrowedSpan) : List (ℕ × FilterPolicy) :=
  [(n.fromSeq, .new n.filters), (satAdd n.toSeq 1, .new [])]

/-- The transitions of the recorded stretches, sorted by seq. A case without
the key has none. -/
def narrowing (front : FrontMatter) : List (ℕ × FilterPolicy) :=
  sortByKey Prod.fst ((front.narrowedBy.getD []).flatMap transitionsOf)

/-- A sealed domain: what a case loads into. -/
structure PostmortemDomain where
  pipeline : LogPipeline
  spanStore : SpanStore
  stem : String
  verdict : EvidenceVerdict
  logsOmitted : Bool
  spansOmitted : Bool

theorem maxCaseRecords_le : maxCaseRecords ≤ u64Max := by decide

/-- Build the sealed domain from a validated case. -/
def assembleCaseDomain (c : LoadedCase) : PostmortemDomain where
  pipeline := .fromRecords (max (c.logs.getD []).length 1) c.toSeq (c.fromSeq - 1) (narrowing c.front)
    (c.logs.getD []) c.fromSeq (by
      have h1 := c.total_le
      have h2 := maxCaseRecords_le
      have h3 : 1 ≤ maxCaseRecords := by decide
      omega)
  spanStore := .fromRecords (max (c.spans.getD []).length 1) (c.spans.getD []) c.fromSeq c.spans_asc
  stem := c.stem
  verdict := c.front.verdict
  logsOmitted := c.logs.isNone
  spansOmitted := c.spans.isNone

/-- Refuse a read whose evidence the capture did not include. -/
def requireEvidence (d : PostmortemDomain) (spans : Bool) : Except String Unit :=
  if (if spans then d.spansOmitted else d.logsOmitted) = false then .ok ()
  else
    let what := if spans then "Span" else "Log"
    let lower := if spans then "spans" else "logs"
    .error (what ++ " evidence was OMITTED from the case `" ++ d.stem ++
      "` when it was captured, so this domain cannot answer questions about " ++ lower ++
      ". That is different from a capture that found none: an empty result here would read as a finding about the " ++
      "system rather than a fact about the capture. Re-capture with " ++ lower ++
      " included, or read the case's document for what it does carry.")

/-- Why a loaded domain does not answer an export. -/
inductive ExportRefusal
  | omitted (message : String)
  | bookmark (e : BookmarkResolutionError)

/-- `logs.export` on a loaded domain. -/
def exportLoaded (E : TextEnv) (d : PostmortemDomain) (bookmarks : BookmarkStore) (session : SessionName)
    (req : ExportRequest) (now : ℤ) : BookmarkStore × Except ExportRefusal ExportReply :=
  match requireEvidence d false with
  | .error e => (bookmarks, .error (.omitted e))
  | .ok () =>
    match handleLogsExport E d.pipeline bookmarks session req now with
    | (bookmarks, .error e) => (bookmarks, .error (.bookmark e))
    | (bookmarks, .ok reply) => (bookmarks, .ok reply)

/-! ### What the rebuilt epochs keep -/

/-- Stretches in order and apart, as a capture records them. -/
def InOrder (l : List NarrowedSpan) : Prop :=
  (l.Pairwise fun a b => a.toSeq < b.fromSeq) ∧ ∀ n ∈ l, n.fromSeq ≤ satAdd n.toSeq 1

theorem InOrder.cons {n : NarrowedSpan} {l : List NarrowedSpan} (h : InOrder (n :: l)) : InOrder l :=
  ⟨(List.pairwise_cons.mp h.1).2, fun m hm => h.2 m (List.mem_cons_of_mem _ hm)⟩

/-- Their transitions are in seq order as they stand. -/
theorem InOrder.transitions : ∀ {l : List NarrowedSpan}, InOrder l →
    (l.flatMap transitionsOf).Pairwise fun a b => a.1 ≤ b.1
  | [], _ => List.Pairwise.nil
  | n :: l, h => by
    have hrest : ∀ t ∈ l.flatMap transitionsOf, satAdd n.toSeq 1 ≤ t.1 := by
      intro t ht
      obtain ⟨m, hm, ht⟩ := List.mem_flatMap.mp ht
      have hlt := (List.pairwise_cons.mp h.1).1 m hm
      have hopen := h.2 m (List.mem_cons_of_mem _ hm)
      simp only [transitionsOf, List.mem_cons, List.not_mem_nil, or_false] at ht
      rcases ht with rfl | rfl <;> simp only <;> unfold satAdd at * <;> omega
    rw [List.flatMap_cons]
    refine List.pairwise_append.mpr ⟨by simpa [transitionsOf] using h.2 n List.mem_cons_self, h.cons.transitions, ?_⟩
    intro a ha b hb
    refine le_trans ?_ (hrest b hb)
    simp only [transitionsOf, List.mem_cons, List.not_mem_nil, or_false] at ha
    rcases ha with rfl | rfl
    · exact h.2 n List.mem_cons_self
    · exact le_rfl

/-- Sorting leaves the transitions of a rendered case as they are. -/
theorem narrowing_eq {front : FrontMatter} {l : List NarrowedSpan} (hby : front.narrowedBy = some l) (h : InOrder l) :
    narrowing front = l.flatMap transitionsOf := by
  unfold narrowing
  rw [hby]
  exact h.transitions.insertionSort_eq

end Cases

namespace Cases

/-- **A recorded stretch is dark**, where the stretches are in order. -/
theorem dark_of_recorded {l : List NarrowedSpan} (h : InOrder l) {n : NarrowedSpan} (hn : n ∈ l)
    (hfilters : n.filters ≠ []) (origin : ℕ) {x : ℕ} (hfrom : n.fromSeq ≤ x) (hto : x ≤ n.toSeq) (hmax : x < u64Max) :
    (EpochLog.ofTransitions origin (l.flatMap transitionsOf)).Dark x := by
  have hbase : ((EpochLog.new origin).observe origin (.new [])).epochs = [⟨origin, .new []⟩] := rfl
  unfold EpochLog.ofTransitions
  by_cases horigin : x < origin
  · have hall : ((EpochLog.new origin).observe origin (.new [])).From origin := by
      unfold EpochLog.From
      rw [hbase]
      simp
    exact (hall.observeAll _).dark horigin
  have hstart : ((EpochLog.new origin).observe origin (.new [])).Upto x := by
    refine ⟨Nat.not_lt.mp horigin, fun e he => ?_⟩
    rw [hbase, List.mem_singleton] at he
    rw [he]
    exact Nat.not_lt.mp horigin
  -- the stretches before it end below `x`, and those after it begin above
  obtain ⟨before, after, rfl⟩ := List.append_of_mem hn
  obtain ⟨-, hafter, hbefore⟩ := List.pairwise_append.mp h.1
  have hlow : ∀ t ∈ before.flatMap transitionsOf, t.1 ≤ x := by
    intro t ht
    have hord := h.transitions
    rw [List.flatMap_append, List.flatMap_cons] at hord
    have := (List.pairwise_append.mp hord).2.2 t ht (n.fromSeq, .new n.filters) (by simp [transitionsOf])
    exact le_trans this hfrom
  have hhigh : ∀ t ∈ after.flatMap transitionsOf, x < t.1 := by
    intro t ht
    obtain ⟨m, hm, ht⟩ := List.mem_flatMap.mp ht
    have hlt := (List.pairwise_cons.mp hafter).1 m hm
    have hopen := h.2 m (List.mem_append_right _ (List.mem_cons_of_mem _ hm))
    simp only [transitionsOf, List.mem_cons, List.not_mem_nil, or_false] at ht
    rcases ht with rfl | rfl
    · exact Nat.lt_of_le_of_lt hto hlt
    · exact Nat.lt_of_lt_of_le (Nat.lt_of_le_of_lt hto hlt) hopen
  have hfiltered : (FilterPolicy.new n.filters).isFiltered = true := by
    rw [FilterPolicy.isFiltered_new]
    simpa using hfilters
  have hclose : x < satAdd n.toSeq 1 := by
    unfold satAdd
    omega
  rw [List.flatMap_append, List.flatMap_cons, EpochLog.observeAll_append]
  exact ((EpochLog.dark_observe_le (hstart.observeAll hlow) hfrom hfiltered).observe hclose).observeAll hhigh

/-- A reply is the export of a resolved query on the domain's pipeline. -/
theorem exportLoaded_reply {E : TextEnv} {d : PostmortemDomain} {bookmarks b : BookmarkStore} {session : SessionName}
    {req : ExportRequest} {now : ℤ} {reply : ExportReply}
    (h : exportLoaded E d bookmarks session req now = (b, .ok reply)) :
    ∃ bookmarks count resolved commit, (exportLogs E d.pipeline bookmarks count resolved commit now).2 = reply := by
  unfold exportLoaded at h
  split at h
  · simp at h
  split at h
  · simp at h
  rename_i reply' hexport
  simp only [Prod.mk.injEq, Except.ok.injEq] at h
  obtain ⟨-, rfl⟩ := h
  unfold handleLogsExport at hexport
  split at hexport
  · simp at hexport
  rename_i b' resolved commit _
  simp only [Prod.mk.injEq, Except.ok.injEq] at hexport
  exact ⟨b', _, _, commit, hexport.2⟩

/-- **A complete export meets no recorded stretch.** -/
theorem loaded_complete_meets_no_stretch {E : TextEnv} {D : ReadEnv} {J : JsonEnv} {bytes : CaseBytes} {c : LoadedCase}
    (_hload : load D J bytes = .ok c) {l : List NarrowedSpan} (hby : c.front.narrowedBy = some l) (horder : InOrder l)
    {bookmarks b : BookmarkStore} {session : SessionName} {req : ExportRequest} {now : ℤ} {reply : ExportReply}
    (hreply : exportLoaded E (assembleCaseDomain c) bookmarks session req now = (b, .ok reply))
    (hcomplete : reply.verdict = .complete) :
    ∃ lo hi, reply.window = some (lo, hi) ∧
      ∀ n ∈ l, n.filters ≠ [] → ∀ x, lo ≤ x → x ≤ hi → x < u64Max → ¬ (n.fromSeq ≤ x ∧ x ≤ n.toSeq) := by
  obtain ⟨_, count, resolved, commit, rfl⟩ := exportLoaded_reply hreply
  obtain ⟨lo, hi, hwindow, hlit⟩ := not_dark_of_complete hcomplete
  refine ⟨lo, hi, hwindow, fun n hn hfilters x hlo hhi hmax ⟨hfrom, hto⟩ => hlit x hlo hhi hmax.le ?_⟩
  show (EpochLog.ofTransitions (c.fromSeq - 1) (narrowing c.front)).Dark x
  rw [narrowing_eq hby horder]
  exact dark_of_recorded horder hn hfilters _ hfrom hto hmax

/-! ### A filtered case -/

/-- A capture of `1..=514` whose first 200 seqs a filter narrowed. -/
def filteredInput : CaseInput where
  stem := "t3-260731-141530"
  capturedAt := 1785507330
  domain := "t3"
  incarnation := some "2"
  reason := "checkout hangs"
  anchor := ⟨.seq, "514", 514, 1785506527, "stalled"⟩
  window := ⟨1, 514, .filtered, [⟨1, 200, ["l>=warn"]⟩], false, 0, 0⟩
  logdata := some ⟨"t3-260731-141530.logdata.jsonl", 2, some ⟨2, 0, 0⟩⟩
  spandata := some ⟨"t3-260731-141530.spandata.jsonl", 0, none⟩
  registry := []
  asserted := []

def filteredBytes : CaseBytes :=
  caseBytes sampleEnv sampleJson filteredInput [] [sampleLog 1, sampleLog 514] [] []

theorem filteredInput_fits : CaseFits filteredInput [sampleLog 1, sampleLog 514] [] [] where
  stem := by decide
  incarnation := by decide
  fits := ⟨by decide, by decide, by decide, by decide, by decide, by decide, by decide⟩
  logdata := ⟨_, rfl⟩
  spandata := ⟨_, rfl⟩
  window := by decide
  total := by decide
  logs_asc := List.pairwise_cons.mpr ⟨by decide, List.pairwise_singleton _ _⟩
  logs_inside := by decide
  spans_asc := Asc.nil
  spans_inside := by simp
  facts_le := by decide
  values_le := by simp

theorem filteredInput_carried :
    CaseCarried sampleEnv sampleJson filteredInput [sampleLog 1, sampleLog 514] [] [] where
  captured := by decide
  anchor := by decide
  header := sampleJson_header
  logs := sampleJson_log
  spans := by simp
  registry := by decide

/-- The case as it is loaded. -/
theorem load_filtered : ∃ c, load sampleEnv sampleJson filteredBytes = .ok c ∧ c.front = filteredInput.recovered ∧
    c.logs = some [sampleLog 1, sampleLog 514] ∧ c.spans = some [] :=
  load_written [] filteredInput_fits filteredInput_carried

/-- An export of `300..=514`. -/
def exportAbove : ExportRequest := ⟨none, none, some 300, some 514, by decide⟩

theorem export_filtered {c : LoadedCase} (hfront : c.front = filteredInput.recovered)
    (hlogs : c.logs = some [sampleLog 1, sampleLog 514]) :
    ∃ reply, exportLoaded .ascii (assembleCaseDomain c) .new ⟨"s", by decide⟩ exportAbove 0 = (.new, .ok reply) ∧
      reply.verdict = .complete ∧ reply.window = some (300, 514) := by
  obtain ⟨stem, front, logs, spans, registry, h1, h2, h3⟩ := c
  obtain rfl : front = _ := hfront
  obtain rfl : logs = _ := hlogs
  exact ⟨_, rfl, rfl, rfl⟩

/-- The verdict of the case is not asked for: above its narrowed stretch the
domain of a `filtered` case vouches for what it holds. -/
theorem filtered_case_exports_complete : ∃ c, load sampleEnv sampleJson filteredBytes = .ok c ∧
    c.front.verdict = .filtered ∧ c.fromSeq ≤ 300 ∧ 514 ≤ c.toSeq ∧
    ∃ reply, exportLoaded .ascii (assembleCaseDomain c) .new ⟨"s", by decide⟩ exportAbove 0 = (.new, .ok reply) ∧
      reply.window = some (300, 514) ∧ reply.verdict = .complete := by
  obtain ⟨c, hload, hfront, hlogs, -⟩ := load_filtered
  obtain ⟨reply, hreply, hverdict, hwindow⟩ := export_filtered hfront hlogs
  refine ⟨c, hload, by rw [hfront]; rfl, ?_, ?_, reply, hreply, hwindow, hverdict⟩
  · show c.front.seqRange.fromSeq ≤ 300
    rw [hfront]
    decide
  · show 514 ≤ c.front.seqRange.toSeq
    rw [hfront]
    decide

/-- On that case: the stretch is in order, and the export does not meet it. -/
theorem filtered_case_meets_no_stretch : ∃ c, load sampleEnv sampleJson filteredBytes = .ok c ∧
    ∃ reply, exportLoaded .ascii (assembleCaseDomain c) .new ⟨"s", by decide⟩ exportAbove 0 = (.new, .ok reply) ∧
      ∃ lo hi, reply.window = some (lo, hi) ∧ ∀ n ∈ filteredInput.window.narrowedBy, n.filters ≠ [] →
        ∀ x, lo ≤ x → x ≤ hi → x < u64Max → ¬ (n.fromSeq ≤ x ∧ x ≤ n.toSeq) := by
  obtain ⟨c, hload, hfront, hlogs, -⟩ := load_filtered
  obtain ⟨reply, hreply, hverdict, -⟩ := export_filtered hfront hlogs
  have hby : c.front.narrowedBy = some filteredInput.window.narrowedBy := by
    rw [hfront]
    rfl
  have horder : InOrder filteredInput.window.narrowedBy := ⟨List.pairwise_singleton _ _, by decide⟩
  exact ⟨c, hload, reply, hreply, loaded_complete_meets_no_stretch hload hby horder hreply hverdict⟩

end Cases
end Logmon
