/-
# Creating a case

`handle_cases_create` of `daemon/rpc_handler.rs`, in the order it takes its
steps: the parameters, the anchor and the window; the claim of the files; the
domain's data entries; the files. What the file system answers, the clock's
readings and the texts of the document's sections are given.

In every state the two stores reach, the window is exact and the files hold
what the stores hold of it (`case_window_exact`). The entries go to the
registry after the files are claimed and before they are written, so a write
that fails leaves them there: a failed call leaves the registry alone exactly
when it fails before that, or its batch changes nothing
(`failed_case_leaves_iff`).

Key definitions: `CreateEnv`, `prepareCase`, `handleCasesCreate`,
`LeavesRegistry`.
Key theorems: `handleCasesCreate_created`, `case_window_exact`,
`failed_case_leaves_iff`.
-/
import Logmon.Cases.CaseData
import Logmon.Cases.Window
import Logmon.Cases.Write
import Logmon.DomainData.Opening

namespace Logmon
namespace Cases

open Lib DomainData

/-! ### The call -/

/-- The domain a session is bound to: no longer there, a loaded case, with the
text it refuses captures with, or live. -/
inductive BoundDomain
  | gone (name : String)
  | postmortem (refusal : String)
  | live (d : LiveDomain)

/-- A note of the reply. -/
structure CaseNote where
  kind : String
  detail : String
  deriving DecidableEq

/-- What a call meets: the host's paths, the clock's readings where it reads
it, the answers of the file system, and the renderer's own texts. -/
structure CreateEnv where
  text : TextEnv
  document : ReadEnv
  json : JsonEnv
  boot : DomainData.Boot
  isAbsolute : String → Bool
  capturedAt : ℤ
  openedAt : ℤ
  appliedAt : ℤ
  /-- Claiming a stem under a prefix in a directory, for loose files or not. -/
  claim : String → Bool → List Char → Except String String
  saved : Except String Unit
  written : Except String Unit
  sections : List Char
  renderNotes : List CaseNote

/-- A request that may be captured: its parameters read, its anchor resolved
and its window cut. -/
structure PreparedCase where
  domain : LiveDomain
  reason : String
  dir : String
  separate : Bool
  omitLogdata : Bool
  omitSpandata : Bool
  clamped : Bool
  anchor : Anchor
  before : ℕ
  after : ℕ
  cut : Cut
  namePrefix : Option String

variable (C : CreateEnv)

/-- `resolve_domain`, for a live domain. -/
def resolveLive : BoundDomain → Except String LiveDomain
  | .gone name => .error s!"domain \"{name}\" no longer exists — use_domain to rebind"
  | .postmortem refusal => .error refusal
  | .live d => .ok d

/-- Everything before the registry is looked at. -/
def prepareCase (bound : BoundDomain) (session : SessionName) (params : Rpc.Value) : Except String PreparedCase := do
  let d ← resolveLive bound
  let reason := String.ofList (trim (← Rpc.reqStr params "reason").toList)
  if reason.isEmpty then
    .error "\x60reason\x60 must not be empty: a manual case that cannot say why it was taken has no provenance, and unlike a watch there is no filter standing in for one"
  else
    let dir ← Rpc.reqStr params "dir"
    if !C.isAbsolute dir then
      .error s!"\x60dir\x60 must be an absolute path, and \x60{dir}\x60 is not. The broker runs as a service, so a relative path would resolve against the broker's working directory rather than yours."
    else
      let separate := (← Rpc.optBool params "separate").getD false
      let uncompressed := (← Rpc.optBool params "uncompressed").getD false
      let omitLogdata := (← Rpc.optBool params "omit_logdata").getD false
      let omitSpandata := (← Rpc.optBool params "omit_spandata").getD false
      if uncompressed && separate then
        .error "\x60uncompressed\x60 has no meaning with \x60separate\x60: loose files are not compressed either way. Drop one of them so the request says what it means."
      else
        let before ← Rpc.windowCount params "before"
        let after ← Rpc.windowCount params "after"
        let (anchor, _) ← resolveCaseAnchor C.text d session (params.get? "anchor")
        let cut ← cutWindow d.pipeline d.spanStore anchor.seq before.value after.value
        let namePrefix ← Rpc.optStr params "prefix"
        .ok
          { domain := d, reason, dir, separate, omitLogdata, omitSpandata
            clamped := before.clamped || after.clamped
            anchor, before := before.value, after := after.value, cut, namePrefix }

/-- `SourceCounts::of`. -/
def SourceCounts.of (entries : List LogEntry) : SourceCounts where
  filter := (entries.filter fun e => e.source = .filter).length
  preTrigger := (entries.filter fun e => e.source = .preTrigger).length
  postTrigger := (entries.filter fun e => e.source = .postTrigger).length

/-- `Entry::is_expired`: past its lifetime in whole seconds; a lifetime past
`i64::MAX` reads as a negative one. -/
def isExpired (now : ℤ) (e : DomainData.Entry) : Option Bool :=
  e.ttlSecs.map fun ttl => decide ((if ttl < 2 ^ 63 then (ttl : ℤ) else ttl - 2 ^ 64) ≤ (now - e.validatedAt).tdiv 1000000000)

/-- `case_registry_copy`: the agents' facts by path, and the incarnation. -/
def caseRegistryCopy (now : ℤ) : Option Registry → List RegistryFact × Option String
  | none => ([], none)
  | some r =>
    ((((r.entries.entries.filter fun p => !isReserved p.1).mergeSort fun a b => decide (a.1 ≤ b.1)).map fun p =>
        ⟨p.1, p.2.value, p.2.createdAt, p.2.validatedAt, p.2.ttlSecs, isExpired now p.2⟩),
      (r.get? "/logmon/incarnation").map DomainData.Entry.value)

/-- What the document is written from. -/
def caseInput (prep : PreparedCase) (stem : String) (incarnation : Option String) (facts : List RegistryFact)
    (asserted : List ScopedFact) : CaseInput where
  stem
  capturedAt := C.capturedAt
  domain := prep.domain.name
  incarnation
  reason := prep.reason
  anchor := prep.anchor
  window :=
    { fromSeq := prep.cut.fromSeq
      toSeq := prep.cut.toSeq
      verdict := prep.cut.verdict
      narrowedBy := prep.cut.coverage.narrowed
      clamped := prep.clamped
      shortBefore := prep.cut.shortBefore
      shortAfter := prep.cut.shortAfter }
  logdata := if prep.omitLogdata then none
    else some ⟨logdataName stem, prep.cut.logs.length, some (SourceCounts.of prep.cut.logs)⟩
  spandata := if prep.omitSpandata then none else some ⟨spandataName stem, prep.cut.spans.length, none⟩
  registry := facts.map RegistryFact.path
  asserted

/-- The files of a case; evidence omitted is not written. -/
def caseFiles (prep : PreparedCase) (input : CaseInput) (facts : List RegistryFact) : CaseBytes where
  stem := input.stem
  document := render C.document input C.sections
  logdata := if prep.omitLogdata then none else some (writeJsonl C.json "logdata" C.json.log prep.cut.logs)
  spandata := if prep.omitSpandata then none else some (writeJsonl C.json "spandata" C.json.span prep.cut.spans)
  registry := some (registryJson C.json facts)

/-- The size of an evidence file, of nothing where it was omitted. -/
structure CaseFile where
  records : ℕ
  bytes : ℕ
  deriving DecidableEq

def textBytes (text : List Char) : ℕ := (String.ofList text).utf8ByteSize

/-- What a capture answers. -/
structure CaseReply where
  stem : String
  files : CaseBytes
  verdict : EvidenceVerdict
  documentBytes : ℕ
  logdata : CaseFile
  spandata : CaseFile
  notes : List CaseNote
  dataOutcomes : List DataOutcome
  dataPersistError : Option String

inductive CreateOutcome
  | panicked
  | failed (e : String)
  | created (prep : PreparedCase) (reply : CaseReply)

/-- The reply of a case that was written. -/
def caseReply (prep : PreparedCase) (stem : String) (files : CaseBytes) (applied : AppliedData) : CaseReply where
  stem
  files
  verdict := prep.cut.verdict
  documentBytes := textBytes files.document
  logdata := files.logdata.elim ⟨0, 0⟩ fun text => ⟨prep.cut.logs.length, textBytes text⟩
  spandata := files.spandata.elim ⟨0, 0⟩ fun text => ⟨prep.cut.spans.length, textBytes text⟩
  notes := C.renderNotes ++
    (if prep.clamped then [⟨"truncated",
      s!"\x60before\x60/\x60after\x60 were clamped to {Rpc.maxCaseWindow}, the maximum; a larger value would not widen the window"⟩] else []) ++
    (applied.persistError.map fun err =>
      ⟨"write", s!"the domain registry could not be persisted: {err}"⟩).toList
  dataOutcomes := applied.outcomes
  dataPersistError := applied.persistError

/-- `case_name_for`: the domain's `/case-name`, as it is before the request's own
entries. -/
def caseNameFor (registry : Option Registry) : Option String :=
  registry.bind fun r => (r.get? "/case-name").map DomainData.Entry.value

/-- `handle_cases_create`: the domain's registry after the call, if the broker
has registries, and what the call comes to. -/
def handleCasesCreate (bound : BoundDomain) (session : SessionName) (registry : Option Cell) (params : Rpc.Value) :
    Option Cell × CreateOutcome :=
  match prepareCase C bound session params with
  | .error e => (registry, .failed e)
  | .ok prep =>
    -- `case_name_for` looks at the registry, and opens it
    let looked := registry.map (Cell.forDomain C.boot C.openedAt)
    match C.claim prep.dir prep.separate (resolvePrefix prep.namePrefix (caseNameFor looked) prep.domain.name) with
    | .error e => (looked.map .opened, .failed e)
    | .ok stem =>
      match applyCaseDataEntries looked (params.get? "data") C.appliedAt C.saved with
      | none => (looked.map .opened, .panicked)
      | some (after, .error e) => (after.map .opened, .failed e)
      | some (after, .ok applied) =>
        let (facts, incarnation) := caseRegistryCopy C.capturedAt after
        let files := caseFiles C prep (caseInput C prep stem incarnation facts applied.facts) facts
        match C.written with
        | .error e => (after.map .opened, .failed e)
        | .ok () => (after.map .opened, .created prep (caseReply C prep stem files applied))

/-! ### What a capture has read -/

variable {C} {bound : BoundDomain} {session : SessionName} {params : Rpc.Value} {prep : PreparedCase}

/-- A request that may be captured is of a live domain, with an anchor that
resolved and the window cut around it. -/
theorem prepareCase_ok (h : prepareCase C bound session params = .ok prep) :
    bound = .live prep.domain ∧
      (∃ many, resolveCaseAnchor C.text prep.domain session (params.get? "anchor") = .ok (prep.anchor, many)) ∧
      (∃ before after, Rpc.windowCount params "before" = .ok before ∧ Rpc.windowCount params "after" = .ok after ∧
        prep.before = before.value ∧ prep.after = after.value) ∧
      cutWindow prep.domain.pipeline prep.domain.spanStore prep.anchor.seq prep.before prep.after = .ok prep.cut := by
  unfold prepareCase at h
  obtain ⟨d, hd, h⟩ := Rpc.bind_eq_ok.mp h
  obtain ⟨reason, -, h⟩ := Rpc.bind_eq_ok.mp h
  dsimp only at h
  split at h
  · simp at h
  obtain ⟨dir, -, h⟩ := Rpc.bind_eq_ok.mp h
  split at h
  · simp at h
  obtain ⟨separate, -, h⟩ := Rpc.bind_eq_ok.mp h
  obtain ⟨uncompressed, -, h⟩ := Rpc.bind_eq_ok.mp h
  obtain ⟨omitLogdata, -, h⟩ := Rpc.bind_eq_ok.mp h
  obtain ⟨omitSpandata, -, h⟩ := Rpc.bind_eq_ok.mp h
  split at h
  · simp at h
  obtain ⟨before, hbefore, h⟩ := Rpc.bind_eq_ok.mp h
  obtain ⟨after, hafter, h⟩ := Rpc.bind_eq_ok.mp h
  obtain ⟨⟨anchor, many⟩, hanchor, h⟩ := Rpc.bind_eq_ok.mp h
  obtain ⟨cut, hcut, h⟩ := Rpc.bind_eq_ok.mp h
  obtain ⟨namePrefix, -, h⟩ := Rpc.bind_eq_ok.mp h
  obtain rfl := Except.ok.inj h
  refine ⟨?_, ⟨many, hanchor⟩, ⟨before, after, hbefore, hafter, rfl, rfl⟩, hcut⟩
  cases bound with
  | gone name => simp [resolveLive] at hd
  | postmortem refusal => simp [resolveLive] at hd
  | live d' => rw [← Except.ok.inj hd]

/-- **A case that is created** has the files of its prepared request. -/
theorem handleCasesCreate_created {registry : Option Cell} {reply : CaseReply}
    (h : (handleCasesCreate C bound session registry params).2 = .created prep reply) :
    prepareCase C bound session params = .ok prep ∧
      ∃ stem applied input facts, reply = caseReply C prep stem (caseFiles C prep input facts) applied := by
  unfold handleCasesCreate at h
  split at h
  · simp at h
  rename_i prep' hprep
  dsimp only at h
  split at h
  · simp at h
  split at h
  · simp at h
  · simp at h
  · split at h
    · simp at h
    · obtain ⟨rfl, rfl⟩ := CreateOutcome.created.inj h
      exact ⟨hprep, _, _, _, _, rfl⟩

/-! ### The window -/

/-- What a capture's window is, in a state of the stores: exact, and where it
is graded complete, with every log that arrived in it. -/
structure CaseExact (s : StoresRun) (anchor before after : ℕ) (cut : Cut) : Prop where
  exact : cut.Exact s.log.pipeline s.spans.ring anchor before after
  complete : cut.verdict = .complete → ∀ y ∈ s.log.arrived, cut.fromSeq ≤ y.seq → y.seq ≤ cut.toSeq →
    ∃ e ∈ cut.logs, e.SameRecord y

/-- A domain whose stores are the run's. -/
def runDomain (s : StoresRun) (name : String) (bookmarks : BookmarkStore) : LiveDomain :=
  ⟨name, s.log.pipeline, s.spans.ring, bookmarks⟩

theorem caseExact_of_inv {s : StoresRun} (h : s.Inv) {anchor before after : ℕ} {cut : Cut}
    (hcut : cutWindow s.log.pipeline s.spans.ring anchor before after = .ok cut)
    (hexact : cut.Exact s.log.pipeline s.spans.ring anchor before after) : CaseExact s anchor before after cut :=
  ⟨hexact, cutWindow_vouches h.log.sound h.log.settled hcut⟩

/-- Around an anchor that resolves, the cut succeeds and is exact. -/
theorem resolved_caseExact {s : StoresRun} (h : s.Inv) {E : TextEnv} {name : String} {bookmarks : BookmarkStore}
    {raw : Option Rpc.Value} {anchor : Anchor} {many : Option ℕ}
    (hanchor : resolveCaseAnchor E (runDomain s name bookmarks) session raw = .ok (anchor, many)) (before after : ℕ) :
    ∃ cut, cutWindow s.log.pipeline s.spans.ring anchor.seq before after = .ok cut ∧
      CaseExact s anchor.seq before after cut := by
  have hwf := h.log.sound.wf
  obtain ⟨e, he, heq⟩ := resolveCaseAnchor_held (d := runDomain s name bookmarks) hwf hanchor
  have hseq : anchor.seq = e.seq := congrArg Anchor.seq heq
  rw [hseq]
  obtain ⟨cut, hcut, hexact⟩ := cutWindow_exact hwf h.asc_spans h.nodup_seqs he before after
  exact ⟨cut, hcut, caseExact_of_inv h hcut hexact⟩

/-- **The case window is exact**, in every state two stores reach before their
counter wraps: around an anchor that resolves the window is cut as asked, and
a case that is created carries that window's records in its files. -/
theorem case_window_exact (C : CreateEnv) (id : DomainId) (capacity : ℕ) (hcap : capacity ≤ u64Max)
    (spanCapacity initialSeq : ℕ) {s : StoresRun}
    (hr : Reach (StoresRun.step C.text id) StoresRun.counts (.new capacity hcap spanCapacity initialSeq) s) (name : String)
    (bookmarks : BookmarkStore) (session : SessionName) :
    (∀ raw anchor many, resolveCaseAnchor C.text (runDomain s name bookmarks) session raw = .ok (anchor, many) →
      ∀ before after, ∃ cut, cutWindow s.log.pipeline s.spans.ring anchor.seq before after = .ok cut ∧
        CaseExact s anchor.seq before after cut) ∧
    ∀ registry params prep reply,
      (handleCasesCreate C (.live (runDomain s name bookmarks)) session registry params).2 = .created prep reply →
      CaseExact s prep.anchor.seq prep.before prep.after prep.cut ∧ reply.verdict = prep.cut.verdict ∧
        (∀ text ∈ reply.files.logdata, text = writeJsonl C.json "logdata" C.json.log prep.cut.logs) ∧
        ∀ text ∈ reply.files.spandata, text = writeJsonl C.json "spandata" C.json.span prep.cut.spans := by
  have hinv := StoresRun.inv_of_reach hr
  refine ⟨fun raw anchor many hanchor before after => resolved_caseExact hinv hanchor before after, ?_⟩
  intro registry params prep reply hcreated
  obtain ⟨hprep, stem, applied, input, facts, rfl⟩ := handleCasesCreate_created hcreated
  obtain ⟨hbound, ⟨many, hanchor⟩, -, hcut⟩ := prepareCase_ok hprep
  obtain hd := BoundDomain.live.inj hbound
  rw [← hd] at hanchor hcut
  obtain ⟨cut, hcut', hexact⟩ := resolved_caseExact hinv hanchor prep.before prep.after
  obtain rfl : cut = prep.cut := Except.ok.inj (hcut'.symm.trans hcut)
  refine ⟨hexact, rfl, fun text htext => ?_, fun text htext => ?_⟩
  · have hwritten : (if prep.omitLogdata then none else some (writeJsonl C.json "logdata" C.json.log prep.cut.logs)) =
        some text := htext
    split at hwritten
    · simp at hwritten
    · exact (Option.some.inj hwritten).symm
  · have hwritten : (if prep.omitSpandata then none else some (writeJsonl C.json "spandata" C.json.span prep.cut.spans)) =
        some text := htext
    split at hwritten
    · simp at hwritten
    · exact (Option.some.inj hwritten).symm

/-- A host whose disk is full when the files are written. -/
def fullDisk : CreateEnv where
  text := .ascii
  document := sampleEnv
  json := sampleJson
  boot := ⟨"default", "0.1.0", sampleEnv.toRfc3339⟩
  isAbsolute dir := dir.toList.head? = some '/'
  capturedAt := 7
  openedAt := 7
  appliedAt := 7
  claim _ _ pre := .ok (stemOf pre "20260801T000000Z" none)
  saved := .ok ()
  written := .error "No space left on device (os error 28)"
  sections := []
  renderNotes := []

/-- The anchor of a seq. -/
def seqAnchor (n : UInt64) : Option Rpc.Value := some (.object [("seq", .number (some n))])

/-- A held record resolves its seq. -/
theorem resolveCaseAnchor_seq {E : TextEnv} {d : LiveDomain} {session : SessionName} {n : UInt64} {e : LogEntry}
    (h : (d.pipeline.store.contextBySeq n.toNat 0 0).head? = some e) :
    resolveCaseAnchor E d session (seqAnchor n) = .ok (anchorOf .seq (toString n.toNat) e, none) := by
  have hseq : Rpc.optU64 (.object [("seq", .number (some n))]) "seq" = .ok (some n.toNat) := rfl
  have hbookmark : Rpc.optStr (.object [("seq", .number (some n))]) "bookmark" = .ok none := rfl
  have htrace : Rpc.optStr (.object [("seq", .number (some n))]) "trace_id" = .ok none := rfl
  unfold resolveCaseAnchor
  simp only [seqAnchor, Option.elim, bind, Except.bind, hseq, hbookmark, htrace, h]

theorem resolveCaseAnchor_of_held {E : TextEnv} {d : LiveDomain} (h : d.pipeline.store.WF) {session : SessionName}
    {n : UInt64} {e : LogEntry} (he : e ∈ d.pipeline.store.entries) (hn : n.toNat = e.seq) :
    resolveCaseAnchor E d session (seqAnchor n) = .ok (anchorOf .seq (toString n.toNat) e, none) := by
  obtain ⟨pre, post, hsplit⟩ := List.append_of_mem he
  refine resolveCaseAnchor_seq ?_
  rw [hn, h.contextBySeq_eq hsplit, Nat.sub_zero, List.drop_length]
  rfl

/-- The last record of the sample run is an anchor. -/
theorem resolve_stalled {s : StoresRun} (h : s.NarrowedLater) (name : String) (session : SessionName) :
    resolveCaseAnchor .ascii (runDomain s name .new) session (seqAnchor 4) =
      .ok (anchorOf .seq "4" StoresRun.stalledAt4, none) := by
  refine resolveCaseAnchor_seq ?_
  show (s.log.pipeline.store.contextBySeq 4 0 0).head? = _
  unfold InMemoryStore.contextBySeq InMemoryStore.position
  rw [h.logs]
  rfl

theorem heldSeqs_sample {s : StoresRun} (hs : s.NarrowedLater) : heldSeqs s.log.pipeline s.spans.ring = [1, 4, 2] := by
  rw [heldSeqs, hs.logs, hs.spans]
  rfl

/-- Around it, a window goes down as far as was asked. -/
theorem Cut.Exact.of_sample {s : StoresRun} (hs : s.NarrowedLater) {before after : ℕ} {cut : Cut}
    (h : cut.Exact s.log.pipeline s.spans.ring 4 before after) :
    cut.fromSeq ≤ 4 ∧ 4 ≤ cut.toSeq ∧
      ([1, 4, 2].filter fun n => decide (cut.fromSeq ≤ n ∧ n < 4)).length = min before 2 := by
  have hwindow := h.window
  rw [heldSeqs_sample hs] at hwindow
  exact ⟨hwindow.within.1, hwindow.within.2, hwindow.below⟩

/-- Two records and a span between them, cut one to a side of the last. -/
theorem case_window_exact_cut : ∃ s cut, s.NarrowedLater ∧
    cutWindow s.log.pipeline s.spans.ring 4 1 1 = .ok cut ∧ CaseExact s 4 1 1 cut ∧
    cut.logs = [StoresRun.stalledAt4] ∧ cut.spans = [StoresRun.timedOutAt2] := by
  obtain ⟨s, hr, hs⟩ := StoresRun.reach_narrowedLater
  obtain ⟨cut, hcut, hexact⟩ :=
    (case_window_exact fullDisk ⟨"default"⟩ 4 (by decide) 4 0 hr "default" .new ⟨"a", by decide⟩).1
      (seqAnchor 4) _ _ (resolve_stalled hs _ _) 1 1
  obtain ⟨hfrom, hto, hbelow⟩ := Cut.Exact.of_sample hs hexact.exact
  -- down to the span and no further
  have hlow : 1 < cut.fromSeq ∧ cut.fromSeq ≤ 2 := by
    simp only [List.filter_cons, List.filter_nil, decide_eq_true_eq] at hbelow
    split_ifs at hbelow <;> simp at hbelow <;> omega
  refine ⟨s, cut, hs, hcut, hexact, ?_, ?_⟩
  · rw [hexact.exact.logs, hs.logs]
    have hout : ¬ cut.fromSeq ≤ StoresRun.connectedAt1.seq := Nat.not_le.mpr hlow.1
    have hin : cut.fromSeq ≤ StoresRun.stalledAt4.seq ∧ StoresRun.stalledAt4.seq ≤ cut.toSeq := ⟨hfrom, hto⟩
    simp [hout, hin]
  · rw [hexact.exact.spans, hs.spans]
    have hin : cut.fromSeq ≤ StoresRun.timedOutAt2.seq ∧ StoresRun.timedOutAt2.seq ≤ cut.toSeq :=
      ⟨hlow.2, le_trans (by decide) hto⟩
    simp [hin]

/-- **After the counter wrapped, a complete case can lack a record** of its
window: one that was assigned the seq of a record still held. -/
theorem case_complete_after_wrap : ∃ s : StoresRun,
    Reach (StoresRun.step .ascii ⟨"default"⟩) (fun _ _ => True) (.new 4 (by decide) 4 0) s ∧
    ∃ anchor many cut, resolveCaseAnchor .ascii (runDomain s "default" .new) ⟨"a", by decide⟩
        (some (.object [("seq", .number (some 1))])) = .ok (anchor, many) ∧
      cutWindow s.log.pipeline s.spans.ring anchor.seq 0 0 = .ok cut ∧ cut.verdict = .complete ∧
      cut.fromSeq = 1 ∧ cut.toSeq = 1 ∧ ∃ y ∈ s.log.arrived, y.seq = 1 ∧ ∀ e ∈ cut.logs, ¬ e.SameRecord y := by
  obtain ⟨log, hlog, hp, y, hy, hseq, hmsg⟩ := LogRun.reach_wrapped
  obtain ⟨spans, hs⟩ := StoresRun.reach_of_log (.start 4 0) hlog
  refine ⟨⟨log, spans⟩, hs, ?_⟩
  unfold runDomain
  rw [hp]
  exact ⟨_, _, _, rfl, rfl, rfl, rfl, rfl, y, hy, hseq, LogRun.not_held_wrapped hmsg⟩

/-! ### A case that fails -/

/-- The file system's answer to the claim of a prepared case. -/
def claimAnswer (C : CreateEnv) (prep : PreparedCase) (cell : Cell) : Except String String :=
  C.claim prep.dir prep.separate (resolvePrefix prep.namePrefix (caseNameFor (some cell.held)) prep.domain.name)

/-- Where a call that fails leaves the registry alone: looking at it changes
nothing, and where only the files fail, neither does the batch. -/
structure LeavesRegistry (C : CreateEnv) (bound : BoundDomain) (session : SessionName) (cell : Cell) (params : Rpc.Value) :
    Prop where
  claim : ∀ prep e, prepareCase C bound session params = .ok prep → claimAnswer C prep cell = .error e →
    cell.QuietToOpen C.boot C.openedAt
  data : ∀ prep stem, prepareCase C bound session params = .ok prep → claimAnswer C prep cell = .ok stem →
    DataRefused (params.get? "data") → cell.QuietToOpen C.boot C.openedAt
  write : ∀ prep stem e, prepareCase C bound session params = .ok prep → claimAnswer C prep cell = .ok stem →
    ¬ DataPanics (params.get? "data") → ¬ DataRefused (params.get? "data") → C.written = .error e →
    cell.QuietToOpen C.boot C.openedAt ∧ cell.held.Unmoved (caseBatch (params.get? "data")) C.appliedAt

/-- The `/case-name` of a registry is not opening's to change. -/
theorem caseNameFor_forDomain (b : DomainData.Boot) (now : ℤ) (cell : Cell) :
    caseNameFor (some (cell.forDomain b now)) = caseNameFor (some cell.held) := by
  cases cell with
  | opened r => rfl
  | closed stored =>
    show ((stored.stampBoot b now).get? "/case-name").map _ = (stored.get? "/case-name").map _
    rw [Registry.stampBoot_agent b now stored (by decide)]

/-- What a prepared call comes to: it fails at the claim, at the entries or at
the files, or panics, or creates the case. -/
theorem handleCasesCreate_cases (cell : Cell) (hprep : prepareCase C bound session params = .ok prep) :
    let opened := cell.forDomain C.boot C.openedAt
    let applied := (opened.update (caseBatch (params.get? "data")) C.appliedAt).1
    let result := handleCasesCreate C bound session (some cell) params
    (∃ e, claimAnswer C prep cell = .error e ∧ result = (some (.opened opened), .failed e)) ∨
    ∃ stem, claimAnswer C prep cell = .ok stem ∧
      ((DataPanics (params.get? "data") ∧ result.2 = .panicked) ∨
        (DataRefused (params.get? "data") ∧ ∃ e, result = (some (.opened opened), .failed e)) ∨
        (¬ DataPanics (params.get? "data") ∧ ¬ DataRefused (params.get? "data") ∧
          ((∃ e, C.written = .error e ∧ result = (some (.opened applied), .failed e)) ∨
            (C.written = .ok () ∧ ∃ reply, result.2 = .created prep reply)))) := by
  intro opened applied result
  have hclaim : C.claim prep.dir prep.separate (resolvePrefix prep.namePrefix
      (caseNameFor (some (cell.forDomain C.boot C.openedAt))) prep.domain.name) = claimAnswer C prep cell := by
    rw [caseNameFor_forDomain]
    rfl
  have hresult : result = handleCasesCreate C bound session (some cell) params := rfl
  unfold handleCasesCreate at hresult
  rw [hprep] at hresult
  simp only [Option.map_some] at hresult
  rw [hclaim] at hresult
  cases hanswer : claimAnswer C prep cell with
  | error e =>
    rw [hanswer] at hresult
    exact .inl ⟨e, rfl, hresult⟩
  | ok stem =>
    rw [hanswer] at hresult
    refine .inr ⟨stem, rfl, ?_⟩
    rcases applyCaseDataEntries_registry (cell.forDomain C.boot C.openedAt) (params.get? "data") C.appliedAt C.saved with
      ⟨hpanic, happly⟩ | ⟨hrefused, e, happly⟩ | ⟨hnopanic, hnorefused, data, happly⟩
    · simp only [happly] at hresult
      exact .inl ⟨hpanic, by rw [hresult]⟩
    · simp only [happly] at hresult
      exact .inr (.inl ⟨hrefused, e, hresult⟩)
    · simp only [happly] at hresult
      refine .inr (.inr ⟨hnopanic, hnorefused, ?_⟩)
      cases hwritten : C.written with
      | error e =>
        simp only [hwritten] at hresult
        exact .inl ⟨e, rfl, hresult⟩
      | ok u =>
        simp only [hwritten] at hresult
        exact .inr ⟨rfl, _, by rw [hresult]⟩

/-- **A failed case leaves the registry alone exactly when** it fails before
the registry is looked at, or looking changes nothing and either the entries
have not been applied or applying them changes nothing. -/
theorem failed_case_leaves_iff (C : CreateEnv) (bound : BoundDomain) (session : SessionName) (cell : Cell)
    (params : Rpc.Value) :
    (∀ e, (handleCasesCreate C bound session (some cell) params).2 = .failed e →
        ∃ after, (handleCasesCreate C bound session (some cell) params).1 = some after ∧ cell.Untouched after) ↔
      LeavesRegistry C bound session cell params := by
  constructor
  · intro h
    have huntouched : ∀ after e, handleCasesCreate C bound session (some cell) params = (some after, .failed e) →
        cell.Untouched after := by
      intro after e heq
      obtain ⟨after', hafter, hun⟩ := h e (by rw [heq])
      rw [heq] at hafter
      rwa [Option.some.inj hafter]
    refine ⟨fun prep e hprep hclaim => ?_, fun prep stem hprep hclaim hrefused => ?_,
      fun prep stem e hprep hclaim hnopanic hnorefused hwritten => ?_⟩
    · rcases handleCasesCreate_cases cell hprep with ⟨e', -, heq⟩ | ⟨stem, hstem, -⟩
      · exact (Cell.forDomain_untouched_iff cell).mp (huntouched _ _ heq)
      · rw [hclaim] at hstem
        cases hstem
    · rcases handleCasesCreate_cases cell hprep with ⟨e, hanswer, -⟩ | ⟨-, -, hrest⟩
      · rw [hclaim] at hanswer
        cases hanswer
      · rcases hrest with ⟨hpanic, -⟩ | ⟨-, e, heq⟩ | ⟨-, hnorefused, -⟩
        · obtain ⟨-, e, he⟩ := hrefused
          rw [hpanic.2] at he
          cases he
        · exact (Cell.forDomain_untouched_iff cell).mp (huntouched _ _ heq)
        · exact absurd hrefused hnorefused
    · rcases handleCasesCreate_cases cell hprep with ⟨e, hanswer, -⟩ | ⟨-, -, hrest⟩
      · rw [hclaim] at hanswer
        cases hanswer
      · rcases hrest with ⟨hpanic, -⟩ | ⟨hrefused, -⟩ | ⟨-, -, ⟨e', -, heq⟩ | ⟨hok, -⟩⟩
        · exact absurd hpanic hnopanic
        · exact absurd hrefused hnorefused
        · exact (Cell.update_untouched_iff cell _ _).mp (huntouched _ _ heq)
        · rw [hwritten] at hok
          cases hok
  · intro h e hfailed
    cases hprep : prepareCase C bound session params with
    | error e' =>
      refine ⟨cell, ?_, fun _ => rfl⟩
      unfold handleCasesCreate
      rw [hprep]
    | ok prep =>
      rcases handleCasesCreate_cases cell hprep with ⟨e', hanswer, heq⟩ | ⟨stem, hstem, hrest⟩
      · exact ⟨_, by rw [heq], (Cell.forDomain_untouched_iff cell).mpr (h.claim prep e' hprep hanswer)⟩
      rcases hrest with ⟨-, hpanicked⟩ | ⟨hrefused, e', heq⟩ | ⟨hnopanic, hnorefused, ⟨e', hwritten, heq⟩ | ⟨-, reply, hcreated⟩⟩
      · rw [hfailed] at hpanicked
        cases hpanicked
      · exact ⟨_, by rw [heq], (Cell.forDomain_untouched_iff cell).mpr (h.data prep stem hprep hstem hrefused)⟩
      · exact ⟨_, by rw [heq], (Cell.update_untouched_iff cell _ _).mpr
          (h.write prep stem e' hprep hstem hnopanic hnorefused hwritten)⟩
      · rw [hfailed] at hcreated
        cases hcreated

/-- A state with one record. -/
def oneStored : StoresRun := ⟨.afterOne, .start 4 0⟩

/-- A registry that is open. -/
def openRegistry : Registry := Registry.new.stampBoot fullDisk.boot 0

/-- A capture that records what was being done. -/
def recordAction : Rpc.Value := .object
  [("reason", .string "stalled"), ("dir", .string "/tmp"), ("anchor", .object [("seq", .number (some 1))]),
    ("before", .number (some 0)), ("after", .number (some 0)),
    ("data", .array [.object [("path", .string "/Action"), ("value", .string "deploy")]])]

/-- **A write that fails leaves the entries behind**: the call is an error, no
case exists, and the registry holds `/Action`. -/
theorem failed_write_keeps_data : ∃ after e,
    handleCasesCreate fullDisk (.live (runDomain oneStored "default" .new)) ⟨"a", by decide⟩
      (some (.opened openRegistry)) recordAction = (some after, .failed e) ∧
    e = "No space left on device (os error 28)" ∧
    openRegistry.get? "/Action" = none ∧ after.held.get? "/Action" = some ⟨"deploy", 7, 7, none⟩ :=
  ⟨_, _, rfl, rfl, by decide, rfl⟩

end Cases
end Logmon
