/-
# A case that was created loads

What a capture promises of the files it writes (`caseFits_created`), and that
a load accepts them (`load_created`): from any state of a domain's two stores,
under whatever registry live calls have made. The sealed domain's registry is
the one the capture copied (`registry_loads_back`).

The files are read back where JSON and RFC 3339 give back what they were given
(`Carries`), and the stem is made as the naming makes it (`NamesStems`).

Key definitions: `StoresRun.Above`, `CreateEnv.Carries`, `LoadedFrom`.
Key theorems: `above_of_reach`, `caseFits_created`, `load_created`,
`archive_created`, `registry_loads_back`.
-/
import Logmon.Cases.Bundle
import Logmon.Cases.Rebuilt
import Logmon.Cases.RegistryCopy

namespace Logmon

open Lib

/-! ### What a run of the stores has brought -/

/-- The observed policy is the one made of a list of filters. -/
def EpochLog.Normal (l : EpochLog) : Prop := ∀ e ∈ l.epochs, ∃ filters, e.policy = .new filters

theorem EpochLog.Normal.observe {l : EpochLog} (h : l.Normal) (seq : ℕ) (filters : List String) :
    (l.observe seq (.new filters)).Normal := by
  rcases l.observe_cases seq (.new filters) with ⟨hsame, -⟩ | ⟨hepochs, -⟩
  · rw [hsame]
    exact h
  · intro e he
    rw [hepochs] at he
    rcases List.mem_append.mp (List.mem_of_mem_drop he) with he | he
    · exact h e he
    · rw [List.mem_singleton.mp he]
      exact ⟨filters, rfl⟩

/-- Storage observes the policy of the sessions' filters, if any. -/
theorem normal_storeEntry {E : TextEnv} {domain : DomainId} {p : LogPipeline} (h : p.epochs.Normal)
    (s : SessionRegistry) (entry : LogEntry) (active : Bool) :
    (storeEntry E p s domain entry active).epochs.Normal := by
  have hjudged : (judgeEntry E p s domain entry).1.epochs.Normal := h.observe _ _
  unfold storeEntry
  split
  · exact h
  split
  · exact h
  · split
    · rename_i p' hj
      rwa [hj] at hjudged
    · rename_i p' e hj
      rw [hj] at hjudged
      exact hjudged

namespace StoresRun

variable {E : TextEnv} {domain : DomainId} {s s' : StoresRun}

/-- What has arrived is above seq 0, and the policies observed are normal. -/
structure Above (s : StoresRun) : Prop where
  logs : ∀ y ∈ s.log.arrived, 0 < y.seq
  spans : ∀ x ∈ s.spans.stored, 0 < x.seq
  normal : s.log.pipeline.epochs.Normal

theorem above_new (capacity : ℕ) (h : capacity ≤ u64Max) (spanCapacity initialSeq : ℕ) :
    (new capacity h spanCapacity initialSeq).Above where
  logs _ hy := nomatch hy
  spans _ hx := nomatch hx
  normal _ he := nomatch he

theorem Above.arrive (h : s.Above) (hinv : s.Inv) (hc : s.log.pipeline.seq < u64Max) {entry : LogEntry} {log : LogRun}
    (hs : s.log.step E domain (.arrive entry) = some log) : Above ⟨log, s.spans⟩ := by
  obtain rfl := Option.some.inj hs
  have hn : (assigned s.log.pipeline entry).seq = s.log.pipeline.seq + 1 := LogPipeline.nextSeq_eq hc
  have hsound := hinv.log.sound.arrive hc hinv.log.assigned entry
  have hmem : assigned s.log.pipeline entry ∈ s.log.arrived ++ [assigned s.log.pipeline entry] :=
    List.mem_append_right _ List.mem_cons_self
  -- the epochs are as they were until the entry is stored
  have hturns := @sessionTurns_through E domain _ _ hmem
    (s.log.sessions.activeSessionIdsSortedByPreWindowForDomain domain)
    (x := ⟨s.log.pipeline.assignSeq, s.log.sessions, false⟩) hsound
  have hthrough := hturns.trans (preBufferAppend_through hturns.sound hmem)
  refine ⟨fun y hy => ?_, h.spans, ?_⟩
  · rcases List.mem_append.mp hy with hy | hy
    · exact h.logs y hy
    · rw [List.mem_singleton.mp hy, hn]
      exact Nat.succ_pos _
  · refine normal_storeEntry ?_ _ _ _
    rw [hthrough.epochs]
    exact h.normal

theorem Above.span (h : s.Above) (hc : s.log.pipeline.seq < u64Max) (span : SpanEntry) {log : LogRun}
    (hs : s.log.step E domain .span = some log) : Above ⟨log, s.synced.step (.insert span)⟩ := by
  obtain rfl := Option.some.inj hs
  have hstored : (s.synced.step (.insert span)).stored = s.spans.stored ++ [s.synced.ring.stamp span] := by
    simp [SpanRun.stored, SpanRun.step, synced]
  have hn : (s.synced.ring.stamp span).seq = s.log.pipeline.seq + 1 := nextSeqOf_eq hc
  refine ⟨h.logs, fun x hx => ?_, h.normal⟩
  rw [hstored] at hx
  rcases List.mem_append.mp hx with hx | hx
  · exact h.spans x hx
  · rw [List.mem_singleton.mp hx, hn]
    exact Nat.succ_pos _

/-- Every action keeps it. -/
theorem Above.step {a : StoresAct} (h : s.Above) (hinv : s.Inv) (hc : s.counts a)
    (hs : s.step E domain a = some s') : s'.Above := by
  obtain ⟨log, hlog, rfl⟩ := Option.map_eq_some_iff.mp hs
  cases a with
  | arrive entry => exact h.arrive hinv (hc _ rfl) hlog
  | configure sessions =>
    obtain rfl := Option.some.inj hlog
    exact ⟨h.logs, h.spans, h.normal⟩
  | resizePreBuffer size =>
    obtain rfl := Option.some.inj hlog
    exact ⟨h.logs, h.spans, h.normal⟩
  | clearLogs =>
    obtain rfl := Option.some.inj hlog
    exact ⟨h.logs, h.spans, h.normal⟩
  | span span => exact h.span (hc _ rfl) span hlog
  | clearSpans =>
    obtain rfl := Option.some.inj hlog
    have hstored : (s.synced.step .clear).stored = s.spans.stored := by simp [SpanRun.stored, SpanRun.step, synced]
    refine ⟨h.logs, ?_, h.normal⟩
    show ∀ x ∈ (s.synced.step .clear).stored, 0 < x.seq
    rw [hstored]
    exact h.spans

theorem above_of_reach {capacity : ℕ} {hcap : capacity ≤ u64Max} {spanCapacity initialSeq : ℕ}
    (hr : Reach (StoresRun.step E domain) counts (new capacity hcap spanCapacity initialSeq) s) : s.Inv ∧ s.Above :=
  hr.invariant (I := fun s => s.Inv ∧ s.Above) ⟨inv_new _ _ _ _, above_new _ _ _ _⟩
    fun _ _ _ h hg hs => ⟨h.1.step hg hs, h.2.step h.1 hg hs⟩

/-- A held seq is above 0, and has been assigned. -/
theorem held_seq (h : s.Inv) (ha : s.Above) {n : ℕ} (hn : n ∈ Cases.heldSeqs s.log.pipeline s.spans.ring) :
    0 < n ∧ n ≤ s.log.pipeline.seq := by
  rcases List.mem_append.mp hn with hn | hn
  · obtain ⟨e, he, rfl⟩ := List.mem_map.mp hn
    obtain ⟨y, hy, hsame⟩ := h.log.sound.ring e he
    rw [hsame.seq]
    exact ⟨ha.logs y hy, h.log.assigned y hy⟩
  · obtain ⟨x, hx, rfl⟩ := List.mem_map.mp hn
    have hstored : x ∈ s.spans.stored := by
      have : x ∈ s.synced.gone ++ s.synced.ring.buffer := List.mem_append_right _ hx
      rwa [← h.spans.stored_eq] at this
    exact ⟨ha.spans x hstored, h.spans.below x hstored⟩

end StoresRun

namespace Cases

open DomainData

/-! ### The window -/

/-- What a cut takes besides the records. -/
theorem cutWindow_parts {p : LogPipeline} {ring : SpanRing} {anchorSeq before after : ℕ} {cut : Cut}
    (hcut : cutWindow p ring anchorSeq before after = .ok cut) (hheld : anchorSeq ∈ heldSeqs p ring) :
    cut.fromSeq ∈ heldSeqs p ring ∧ cut.toSeq ∈ heldSeqs p ring ∧
      cut.coverage = p.epochs.coverage cut.fromSeq cut.toSeq ∧ cut.shortBefore ≤ before ∧ cut.shortAfter ≤ after := by
  have hside : ∀ (le : ℕ → ℕ → Bool) (count : ℕ) (side : ℕ → Bool),
      edge anchorSeq (sideSeqs le count side (p.store.contextBySeq anchorSeq before after) ring.buffer) ∈ heldSeqs p ring := by
    intro le count side
    rcases edge_cases anchorSeq (sideSeqs le count side (p.store.contextBySeq anchorSeq before after) ring.buffer) with
      heq | hmem
    · rw [heq]
      exact hheld
    · rcases List.mem_append.mp (mem_nearest hmem) with hmem | hmem
      · obtain ⟨e, he, heq⟩ := List.mem_map.mp (List.mem_filter.mp hmem).1
        exact List.mem_append_left _ (List.mem_map.mpr ⟨e, contextBySeq_subset _ _ _ he, heq⟩)
      · exact List.mem_append_right _ (List.mem_filter.mp hmem).1
  unfold cutWindow at hcut
  dsimp only at hcut
  split at hcut
  · simp at hcut
  split at hcut
  · simp at hcut
  · obtain rfl := Except.ok.inj hcut
    exact ⟨hside _ _ _, hside _ _ _, rfl, Nat.sub_le _ _, Nat.sub_le _ _⟩

/-- A held seq is a `u64`. -/
theorem le_of_heldSeqs {p : LogPipeline} {ring : SpanRing} {n : ℕ} (h : n ∈ heldSeqs p ring) : n ≤ u64Max := by
  rcases List.mem_append.mp h with h | h
  · obtain ⟨e, -, rfl⟩ := List.mem_map.mp h
    exact e.seq_le
  · obtain ⟨x, -, rfl⟩ := List.mem_map.mp h
    exact x.seq_le

/-- A window of held seqs is no wider than was asked. -/
theorem Cut.Exact.length_le {p : LogPipeline} {ring : SpanRing} {anchor before after : ℕ} {cut : Cut}
    (h : cut.Exact p ring anchor before after) : cut.logs.length + cut.spans.length ≤ before + 1 + after := by
  have hlogs : cut.logs.length = ((p.store.entries.map LogEntry.seq).filter fun s =>
      decide (cut.fromSeq ≤ s ∧ s ≤ cut.toSeq)).length := by
    rw [h.logs, List.filter_map, List.length_map]
    rfl
  have hspans : cut.spans.length = ((ring.buffer.map SpanEntry.seq).filter fun s =>
      decide (cut.fromSeq ≤ s ∧ s ≤ cut.toSeq)).length := by
    rw [h.spans, List.filter_map, List.length_map]
    rfl
  have hheld : cut.logs.length + cut.spans.length =
      ((heldSeqs p ring).filter fun s => decide (cut.fromSeq ≤ s ∧ s ≤ cut.toSeq)).length := by
    rw [hlogs, hspans, heldSeqs, List.filter_append, List.length_append]
  -- each held seq of the window is below the anchor, the anchor, or above
  have hsplit : ∀ l : List ℕ, (l.filter fun s => decide (cut.fromSeq ≤ s ∧ s ≤ cut.toSeq)).length ≤
      (l.filter fun s => decide (cut.fromSeq ≤ s ∧ s < anchor)).length + (l.filter fun s => decide (s = anchor)).length +
        (l.filter fun s => decide (anchor < s ∧ s ≤ cut.toSeq)).length := by
    intro l
    simp only [← List.countP_eq_length_filter]
    induction l with
    | nil => exact le_rfl
    | cons a l ih =>
      simp only [List.countP_cons, decide_eq_true_eq]
      split_ifs <;> omega
  have hbelow := h.window.below
  have habove := h.window.above
  have honce := h.window.once
  have := hsplit (heldSeqs p ring)
  rw [hheld]
  omega

/-- What a load has of the registry file. -/
theorem registry_of_load {D : ReadEnv} {J : JsonEnv} {bytes : CaseBytes} {c : LoadedCase} (h : load D J bytes = .ok c) :
    parseRegistry J bytes.registry = .ok c.registry := by
  have hvalidated : ∀ {stem front logs spans}, validated J stem front logs spans bytes.registry = .ok c →
      parseRegistry J bytes.registry = .ok c.registry := by
    intro stem front logs spans hv
    unfold validated at hv
    split at hv
    · split at hv
      · cases hv
      · split at hv
        · cases hv
        · split at hv
          · cases hv
          · rename_i registry hregistry
            obtain rfl := Except.ok.inj hv
            exact hregistry
    · cases hv
  unfold load at h
  split at h
  · cases h
  · simp only [bind, Except.bind] at h
    split at h
    · cases h
    split at h
    · cases h
    split at h
    · cases h
    split at h
    · cases h
    exact hvalidated h

/-! ### A case that is created -/

variable {C : CreateEnv} {bound : BoundDomain} {session : SessionName} {params : Rpc.Value} {prep : PreparedCase}
  {registry : Option Cell} {reply : CaseReply}

/-- The naming makes every stem: the prefix, a stamp, and an id where the name
was taken. -/
def CreateEnv.NamesStems (C : CreateEnv) : Prop := ∀ dir separate pre stem, C.claim dir separate pre = .ok stem →
  ∃ stamp rolled, stem = stemOf pre stamp rolled ∧ SafeStem stamp ∧ ∀ id ∈ rolled, SafeStem id

/-- JSON and RFC 3339 give back what the case is written from. -/
structure CreateEnv.Carries (C : CreateEnv) (prep : PreparedCase) (registry : Option Registry) : Prop where
  captured : C.document.parseRfc3339 (C.document.toRfc3339 C.capturedAt) = some C.capturedAt
  anchor : C.document.parseRfc3339 (C.document.toRfc3339 prep.anchor.time) = some prep.anchor.time
  header : ∀ kind ∈ ["logdata", "spandata"],
    Carried (fun h : ℕ × String => C.json.header h.1 h.2) C.json.readHeader (formatVersion, kind)
  logs : ∀ e ∈ prep.cut.logs, Carried C.json.log C.json.readLog e
  spans : ∀ x ∈ prep.cut.spans, Carried C.json.span C.json.readSpan x
  registry : C.json.readRegistry (registryJson C.json (caseRegistryCopy C.capturedAt registry).1) =
    .ok ⟨formatVersion, (caseRegistryCopy C.capturedAt registry).1, 0⟩

/-- The registry a call leaves. -/
def registryAfter (C : CreateEnv) (bound : BoundDomain) (session : SessionName) (registry : Option Cell)
    (params : Rpc.Value) : Option Registry := (handleCasesCreate C bound session registry params).1.map Cell.held

/-- What is written of a case, from its prepared request and the registry
after its entries. -/
theorem created_files (h : (handleCasesCreate C bound session registry params).2 = .created prep reply) :
    ∃ stem applied, C.claim prep.dir prep.separate (resolvePrefix prep.namePrefix
        (caseNameFor (registry.map (Cell.forDomain C.boot C.openedAt))) prep.domain.name) = .ok stem ∧
      applyCaseDataEntries (registry.map (Cell.forDomain C.boot C.openedAt)) (params.get? "data") C.appliedAt C.saved =
        some (registryAfter C bound session registry params, .ok applied) ∧
      reply.files = caseFiles C prep (caseInput C prep stem
        (caseRegistryCopy C.capturedAt (registryAfter C bound session registry params)).2
        (caseRegistryCopy C.capturedAt (registryAfter C bound session registry params)).1 applied.facts)
        (caseRegistryCopy C.capturedAt (registryAfter C bound session registry params)).1 := by
  unfold registryAfter
  unfold handleCasesCreate at h ⊢
  split at h
  · cases h
  rename_i prep' hprep
  dsimp only at h ⊢
  split at h
  · cases h
  rename_i stem hclaim
  split at h
  · cases h
  · cases h
  · rename_i after applied happly
    split at h
    · cases h
    · rename_i hwritten
      obtain ⟨rfl, rfl⟩ := CreateOutcome.created.inj h
      have hheld : (after.map Cell.opened).map Cell.held = after := by cases after <;> rfl
      refine ⟨stem, applied, hclaim, ?_, ?_⟩
      · simp only [hheld]
        exact happly
      · simp only [hheld]
        rfl

/-- The registry after the call is one a case can carry. -/
theorem carriable_registryAfter
    (hregistry : ∀ cell ∈ registry, Reach Registry.step Registry.daemonCall .new cell.held)
    (h : (handleCasesCreate C bound session registry params).2 = .created prep reply) :
    ∀ r ∈ registryAfter C bound session registry params, r.Carriable := by
  obtain ⟨stem, applied, -, happly, -⟩ := created_files h
  cases registry with
  | none =>
    intro r hr
    unfold applyCaseDataEntries at happly
    simp only [Option.map_none] at happly
    split at happly
    · obtain ⟨hafter, -⟩ := Prod.mk.inj (Option.some.inj happly)
      rw [← hafter] at hr
      cases hr
    · obtain ⟨hafter, -⟩ := Prod.mk.inj (Option.some.inj happly)
      rw [← hafter] at hr
      cases hr
  | some cell =>
    have hopened : (cell.forDomain C.boot C.openedAt).Carriable := by
      cases cell with
      | opened r => exact Registry.carriable_of_reach (hregistry _ rfl)
      | closed r => exact Registry.carriable_of_reach (Registry.reach_stampBoot _ _ (hregistry _ rfl))
    intro r hr
    rcases applyCaseDataEntries_registry (cell.forDomain C.boot C.openedAt) (params.get? "data") C.appliedAt C.saved with
      ⟨-, heq⟩ | ⟨-, e, heq⟩ | ⟨-, -, applied', heq⟩
    · rw [Option.map_some, heq] at happly
      cases happly
    · rw [Option.map_some, heq] at happly
      obtain ⟨-, hno⟩ := Prod.mk.inj (Option.some.inj happly)
      cases hno
    · rw [Option.map_some, heq] at happly
      obtain ⟨hafter, -⟩ := Prod.mk.inj (Option.some.inj happly)
      rw [← hafter] at hr
      obtain rfl := Option.some.inj hr
      exact hopened.update _ _

/-! ### It loads -/

/-- A prepared request on a run's stores: its anchor is held, its window is
exact, and no more was asked than may be. -/
structure PreparedOn (s : StoresRun) (prep : PreparedCase) : Prop where
  anchor : ∃ e ∈ s.log.pipeline.store.entries, prep.anchor.seq = e.seq
  cut : cutWindow s.log.pipeline s.spans.ring prep.anchor.seq prep.before prep.after = .ok prep.cut
  exact : prep.cut.Exact s.log.pipeline s.spans.ring prep.anchor.seq prep.before prep.after
  before_le : prep.before ≤ Rpc.maxCaseWindow
  after_le : prep.after ≤ Rpc.maxCaseWindow

theorem preparedOn {s : StoresRun} (hinv : s.Inv) {name : String} {bookmarks : BookmarkStore}
    (hprep : prepareCase C (.live (runDomain s name bookmarks)) session params = .ok prep) : PreparedOn s prep := by
  obtain ⟨hbound, ⟨many, hanchor⟩, ⟨before, after, hbefore, hafter, hb, ha⟩, hcut⟩ := prepareCase_ok hprep
  have hd := BoundDomain.live.inj hbound
  rw [← hd] at hanchor hcut
  obtain ⟨e, he, heq⟩ := resolveCaseAnchor_held (d := runDomain s name bookmarks) hinv.log.sound.wf hanchor
  obtain ⟨cut, hcut', hexact⟩ := resolved_caseExact hinv hanchor prep.before prep.after
  obtain rfl : cut = prep.cut := Except.ok.inj (hcut'.symm.trans hcut)
  refine ⟨⟨e, he, congrArg Anchor.seq heq⟩, hcut, hexact.exact, ?_, ?_⟩
  · rw [hb]
    exact (Rpc.windowCount_le hbefore).1
  · rw [ha]
    exact (Rpc.windowCount_le hafter).1

theorem PreparedOn.held {s : StoresRun} (h : PreparedOn s prep) :
    prep.anchor.seq ∈ heldSeqs s.log.pipeline s.spans.ring := by
  obtain ⟨e, he, heq⟩ := h.anchor
  rw [heq]
  exact List.mem_append_left _ (List.mem_map_of_mem he)

theorem PreparedOn.window {s : StoresRun} (h : PreparedOn s prep) : prep.cut.fromSeq ≤ prep.cut.toSeq :=
  le_trans h.exact.window.within.1 h.exact.window.within.2

/-- The window of a prepared request is one a case can record. -/
theorem PreparedOn.recorded {s : StoresRun} (h : PreparedOn s prep) (hinv : s.Inv) (habove : s.Above)
    (hseq : s.log.pipeline.seq < u64Max) : Recorded s.log.pipeline.epochs prep.cut.fromSeq prep.cut.toSeq := by
  obtain ⟨hfrom, hto, -⟩ := cutWindow_parts h.cut h.held
  obtain ⟨hpos, -⟩ := StoresRun.held_seq hinv habove hfrom
  obtain ⟨-, hle⟩ := StoresRun.held_seq hinv habove hto
  exact ⟨hpos, h.window, Nat.lt_of_le_of_lt hle hseq, habove.normal⟩

/-- **What a created case promises of its files.** -/
theorem caseFits_created {s : StoresRun} (hinv : s.Inv) (h : PreparedOn s prep) (hlogs : prep.omitLogdata = false)
    (hspans : prep.omitSpandata = false) {stem : String} (hstem : SafeStem stem) {after : Option Registry}
    (hafter : ∀ r ∈ after, r.Carriable) (asserted : List ScopedFact) :
    CaseFits
      (caseInput C prep stem (caseRegistryCopy C.capturedAt after).2 (caseRegistryCopy C.capturedAt after).1 asserted)
      prep.cut.logs prep.cut.spans (caseRegistryCopy C.capturedAt after).1 := by
  obtain ⟨-, hto, hcoverage, hshortBefore, hshortAfter⟩ := cutWindow_parts h.cut h.held
  obtain ⟨e, he, hanchor⟩ := h.anchor
  have hbelow := le_of_heldSeqs hto
  have hwindow := h.window
  have hmax : Rpc.maxCaseWindow = 5000 := rfl
  have hbefore := h.before_le
  have hafterLe := h.after_le
  have htotal : prep.cut.logs.length + prep.cut.spans.length ≤ 10001 := by
    have := h.exact.length_le
    omega
  have hword : (10001 : ℕ) ≤ u64Max := by decide
  have hcount : ∀ p : LogEntry → Bool, (prep.cut.logs.filter p).length ≤ u64Max := by
    intro p
    have := List.length_filter_le p prep.cut.logs
    omega
  have hasc := hinv.log.sound.wf.asc
  refine
    { stem := hstem, incarnation := ?_, fits := ?_, logdata := ?_, spandata := ?_, window := hwindow, total := ?_
      logs_asc := ?_, logs_inside := ?_, spans_asc := ?_, spans_inside := ?_, facts_le := ?_, values_le := ?_ }
  · intro hnull
    cases after with
    | none => cases hnull
    | some r =>
      obtain ⟨inc, hinc, hvalue⟩ := Option.map_eq_some_iff.mp hnull
      exact (hafter r rfl).incarnation inc hinc hvalue
  · refine ⟨?_, ?_, hbelow, ?_, ?_, fun n hn => ?_, fun p hp => ?_⟩
    · show prep.anchor.seq ≤ u64Max
      rw [hanchor]
      exact e.seq_le
    · exact le_trans hwindow hbelow
    · show prep.cut.shortBefore ≤ u64Max
      omega
    · show prep.cut.shortAfter ≤ u64Max
      omega
    · have hn' : n ∈ prep.cut.coverage.narrowed := hn
      rw [hcoverage, coverage_narrowed] at hn'
      exact ⟨le_trans (fromSeq_le_of_mem_narrowedSpans hwindow hn') hbelow,
        le_trans (inside_of_mem_narrowedSpans hn').2 hbelow⟩
    · simp only [caseInput, hlogs, hspans, Bool.false_eq_true, if_false, Option.toList_some, List.cons_append,
        List.nil_append, List.mem_cons, List.not_mem_nil, or_false] at hp
      rcases hp with rfl | rfl
      · refine ⟨show prep.cut.logs.length ≤ u64Max by omega, fun c hc => ?_⟩
        obtain rfl := Option.some.inj hc
        exact ⟨hcount _, hcount _, hcount _⟩
      · exact ⟨show prep.cut.spans.length ≤ u64Max by omega, fun c hc => by cases hc⟩
  · exact ⟨_, by simp only [caseInput, hlogs]; rfl⟩
  · exact ⟨_, by simp only [caseInput, hspans]; rfl⟩
  · have : (10001 : ℕ) ≤ maxCaseRecords := by decide
    omega
  · rw [h.exact.logs]
    exact hasc.sublist List.filter_sublist
  · intro x hx
    rw [h.exact.logs] at hx
    exact of_decide_eq_true (List.mem_filter.mp hx).2
  · rw [h.exact.spans]
    exact hinv.asc_spans.sublist List.filter_sublist
  · intro x hx
    rw [h.exact.spans] at hx
    exact of_decide_eq_true (List.mem_filter.mp hx).2
  · cases after with
    | none => exact Nat.zero_le _
    | some r =>
      rw [length_caseRegistryCopy]
      exact (hafter r rfl).ruled.counted_le
  · intro f hf
    cases after with
    | none => cases hf
    | some r =>
      obtain ⟨e, hagent, hget, hfact⟩ := mem_caseRegistryCopy.mp hf
      have := (hafter r rfl).values f.path e hget hagent
      rw [hfact]
      exact this

/-- What a loaded case has of the capture it was written by. -/
structure LoadedFrom (C : CreateEnv) (prep : PreparedCase) (registry : Option Registry) (c : LoadedCase) : Prop where
  fromSeq : c.fromSeq = prep.cut.fromSeq
  toSeq : c.toSeq = prep.cut.toSeq
  logs : c.logs = some prep.cut.logs
  spans : c.spans = some prep.cut.spans
  narrowedBy : c.front.narrowedBy = some prep.cut.coverage.narrowed
  capturedAt : c.front.capturedAt = C.capturedAt
  era : c.front.incarnation = (caseRegistryCopy C.capturedAt registry).2
  registry : ∃ block, c.registry = some block ∧ block.facts = (caseRegistryCopy C.capturedAt registry).1

/-- **A case that is created is accepted**, where it omits no evidence. -/
theorem load_created {s : StoresRun} (hinv : s.Inv) {name : String} {bookmarks : BookmarkStore}
    (hregistry : ∀ cell ∈ registry, Reach Registry.step Registry.daemonCall .new cell.held)
    (hcreated : (handleCasesCreate C (.live (runDomain s name bookmarks)) session registry params).2 = .created prep reply)
    (hlogs : prep.omitLogdata = false) (hspans : prep.omitSpandata = false) (hnames : C.NamesStems)
    (hcarries : C.Carries prep (registryAfter C (.live (runDomain s name bookmarks)) session registry params)) :
    ∃ c, load C.document C.json reply.files = .ok c ∧
      LoadedFrom C prep (registryAfter C (.live (runDomain s name bookmarks)) session registry params) c := by
  obtain ⟨hprep, -⟩ := handleCasesCreate_created hcreated
  have hon := preparedOn hinv hprep
  obtain ⟨stem, applied, hclaim, -, hfiles⟩ := created_files hcreated
  have hafter := carriable_registryAfter hregistry hcreated
  generalize registryAfter C (.live (runDomain s name bookmarks)) session registry params = after at hcarries hfiles hafter ⊢
  have hstem : SafeStem stem := by
    obtain ⟨stamp, rolled, rfl, hstamp, hrolled⟩ := hnames _ _ _ _ hclaim
    exact safeStem_stemOf hstamp hrolled
  have hfits := caseFits_created (C := C) hinv hon hlogs hspans hstem hafter applied.facts
  have hcase : CaseCarried C.document C.json (caseInput C prep stem (caseRegistryCopy C.capturedAt after).2
      (caseRegistryCopy C.capturedAt after).1 applied.facts) prep.cut.logs prep.cut.spans
      (caseRegistryCopy C.capturedAt after).1 :=
    ⟨hcarries.captured, hcarries.anchor, hcarries.header, hcarries.logs, hcarries.spans, hcarries.registry⟩
  obtain ⟨c, hload, hfront, hlogs', hspans'⟩ := load_written C.sections hfits hcase
  have hbytes : reply.files = caseBytes C.document C.json (caseInput C prep stem (caseRegistryCopy C.capturedAt after).2
      (caseRegistryCopy C.capturedAt after).1 applied.facts) C.sections prep.cut.logs prep.cut.spans
      (caseRegistryCopy C.capturedAt after).1 := by
    rw [hfiles]
    simp only [caseFiles, hlogs, hspans]
    rfl
  have hregistry' := registry_of_load hload
  have hwritten := parseRegistry_written hcarries.registry hfits.facts_le hfits.values_le
  rw [← hbytes] at hload
  refine ⟨c, hload, ?_, ?_, hlogs', hspans', by rw [hfront]; rfl, by rw [hfront]; rfl, by rw [hfront]; rfl, _,
    Except.ok.inj (hregistry'.symm.trans hwritten), rfl⟩
  · show c.front.seqRange.fromSeq = _
    rw [hfront]
    rfl
  · show c.front.seqRange.toSeq = _
    rw [hfront]
    rfl

/-- **What was created is loaded exactly when it can be read back**, and then it
is what the capture had. -/
theorem archive_created {s : StoresRun} (hinv : s.Inv) {name : String} {bookmarks : BookmarkStore}
    (hregistry : ∀ cell ∈ registry, Reach Registry.step Registry.daemonCall .new cell.held)
    (hcreated : (handleCasesCreate C (.live (runDomain s name bookmarks)) session registry params).2 = .created prep reply)
    (hlogs : prep.omitLogdata = false) (hspans : prep.omitSpandata = false) (hnames : C.NamesStems)
    (hcarries : C.Carries prep (registryAfter C (.live (runDomain s name bookmarks)) session registry params)) :
    ∃ archive, writeArchive prep.separate reply.files = .ok archive ∧
      ((∃ c, loadArchive C.document C.json reply.files.stem archive = .ok c) ↔ Readable prep.separate reply.files) ∧
      ∀ c, loadArchive C.document C.json reply.files.stem archive = .ok c →
        LoadedFrom C prep (registryAfter C (.live (runDomain s name bookmarks)) session registry params) c := by
  obtain ⟨c, hload, hfrom⟩ := load_created hinv hregistry hcreated hlogs hspans hnames hcarries
  obtain ⟨archive, hwrite, hread⟩ := loadArchive_written C.document C.json prep.separate reply.files
  refine ⟨archive, hwrite, ⟨fun ⟨c', hc'⟩ => ((hread c').mp hc').1, fun h => ⟨c, (hread c).mpr ⟨h, hload⟩⟩⟩, ?_⟩
  intro c' hc'
  rwa [← Except.ok.inj (hload.symm.trans ((hread c').mp hc').2)]

/-- **A case's registry loads back**, in every state two stores reach before
their counter wraps: what a capture wrote, with no evidence omitted, is loaded
exactly when it can be read back, and the sealed domain's registry is the one
that was copied. -/
theorem registry_loads_back (C : CreateEnv) (id : DomainId) (capacity : ℕ) (hcap : capacity ≤ u64Max)
    (spanCapacity initialSeq : ℕ) {s : StoresRun}
    (hr : Reach (StoresRun.step C.text id) StoresRun.counts (.new capacity hcap spanCapacity initialSeq) s)
    (name : String) (bookmarks : BookmarkStore) (session : SessionName) {registry : Option Cell}
    (hregistry : ∀ cell ∈ registry, Reach Registry.step Registry.daemonCall .new cell.held) (params : Rpc.Value)
    {prep : PreparedCase} {reply : CaseReply}
    (hcreated : (handleCasesCreate C (.live (runDomain s name bookmarks)) session registry params).2 = .created prep reply)
    (hlogs : prep.omitLogdata = false) (hspans : prep.omitSpandata = false) (hnames : C.NamesStems)
    (hcarries : C.Carries prep (registryAfter C (.live (runDomain s name bookmarks)) session registry params)) :
    ∃ archive, writeArchive prep.separate reply.files = .ok archive ∧
      ((∃ c, loadArchive C.document C.json reply.files.stem archive = .ok c) ↔ Readable prep.separate reply.files) ∧
      ∀ c, loadArchive C.document C.json reply.files.stem archive = .ok c →
        ∀ r ∈ registryAfter C (.live (runDomain s name bookmarks)) session registry params,
          ∀ key, (loadedRegistry c).get? key = carriedOver r C.capturedAt key := by
  obtain ⟨archive, hwrite, hloads, hback⟩ := archive_created (StoresRun.inv_of_reach hr) hregistry hcreated hlogs hspans
    hnames hcarries
  refine ⟨archive, hwrite, hloads, fun c hc r hafter key => ?_⟩
  have hfrom := hback c hc
  obtain ⟨block, hblock, hfacts⟩ := hfrom.registry
  have hera := hfrom.era
  rw [show registryAfter C (.live (runDomain s name bookmarks)) session registry params = some r from hafter,
    ← hfrom.capturedAt] at hfacts hera
  rw [get?_loadedRegistry hblock hfacts hera, hfrom.capturedAt]

/-! ### A sample -/

/-- A text that starts with a mark and has no control character is one line. -/
theorem carried_of_plain {T : Type} {write : T → List Char} {read : List Char → Except String T} {x : T}
    (hread : read (write x) = .ok x)
    (hplain : ((write x).head?.any (fun c => !isWhiteSpace c) && (write x).all fun c => decide (' ' ≤ c)) = true) :
    Carried write read x := by
  obtain ⟨hhead, hall⟩ := (Bool.and_eq_true _ _).mp hplain
  have hline : ∀ c ∈ write x, ' ' ≤ c := fun c hc => of_decide_eq_true (List.all_eq_true.mp hall c hc)
  refine ⟨⟨fun h => absurd (hline _ h) (by decide), fun h => absurd (hline _ h) (by decide)⟩, ?_, hread⟩
  obtain ⟨c, hc, hmark⟩ := (Option.any_eq_true _ _).mp hhead
  have hmem := List.mem_of_mem_head? hc
  obtain ⟨a, b, hl, ha, hb⟩ := exists_trim (write x)
  rw [List.isEmpty_eq_false_iff]
  intro hnil
  rw [hl, hnil, List.nil_append] at hmem
  rcases List.mem_append.mp hmem with h | h
  · simp [ha c h] at hmark
  · simp [hb c h] at hmark

/-- The two times of the sample, in nanoseconds. -/
def captureTimes : ReadEnv :=
  { sampleEnv with
    toRfc3339 := fun t =>
      if t = 1785507330000000000 then "2026-07-31T14:15:30+00:00" else "2026-07-31T14:02:07+00:00"
    parseRfc3339 := fun s =>
      if s = "2026-07-31T14:15:30+00:00" then some 1785507330000000000
      else if s = "2026-07-31T14:02:07+00:00" then some 1785506527000000000 else none }

/-- A log's JSON, by its seq, level, message and matched filters. -/
def logJson (seq : ℕ) (level message matched : String) : List Char :=
  "\x7b\"seq\":".toList ++ decimal seq ++ ",\"timestamp\":".toList ++ "\"2026-07-31T14:02:07Z\"".toList ++
    ",\"level\":\"".toList ++ level.toList ++ "\",\"message\":\"".toList ++ message.toList ++
    "\",\"full_message\":null".toList ++ ",\"host\":\"\"".toList ++ ",\"facility\":null".toList ++
    ",\"file\":null,\"line\":null".toList ++ ",\"additional_fields\":\x7b\x7d".toList ++
    ",\"matched_filters\":[".toList ++ matched.toList ++ "],\"source\":\"Filter\"\x7d".toList

def connectedJson : List Char := logJson 1 "Info" "connected" ""
def stalledJson : List Char := logJson 4 "Error" "stalled" "\"errors\""

def timedOutJson : List Char :=
  "\x7b\"seq\":2".toList ++ ",\"trace_id\":\"".toList ++ List.replicate 30 '0' ++ "2a\"".toList ++
    ",\"span_id\":\"".toList ++ List.replicate 15 '0' ++ "7\"".toList ++ ",\"parent_span_id\":null".toList ++
    ",\"start_time\":".toList ++ "\"2026-07-31T14:02:07Z\"".toList ++ ",\"end_time\":".toList ++
    "\"2026-07-31T14:02:07.250Z\"".toList ++ ",\"duration_ms\":250.0".toList ++ ",\"name\":\"GET /orders\"".toList ++
    ",\"kind\":\"client\"".toList ++ ",\"service_name\":\"checkout\"".toList ++ ",\"status\":\x7b".toList ++
    "\"type\":\"error\",".toList ++ "\"message\":\"timeout\"\x7d".toList ++ ",\"attributes\":\x7b".toList ++
    "\"peer.service\":\"orders\"\x7d".toList ++ ",\"events\":[]\x7d".toList

/-- The agents' facts of the capture: its own, and one from before. -/
def capturedFacts : List RegistryFact :=
  [⟨"/Action", "deploy", 1785507330000000000, 1785507330000000000, none, none⟩,
    ⟨"/Build", "1042", 1785506527000000000, 1785506527000000000, none, none⟩]

def factJson (path value time : String) : List Char :=
  "\x7b\"created_at\":\"".toList ++ time.toList ++ "\",\"expired\":null,\"path\":\"".toList ++ path.toList ++
    "\",\"ttl_secs\":null,\"validated_at\":\"".toList ++ time.toList ++ "\",\"value\":\"".toList ++ value.toList ++
    "\"\x7d".toList

def factsJson : List Char :=
  "\x7b\"dropped\":0,\"facts\":[".toList ++ factJson "/Action" "deploy" "2026-07-31T14:15:30Z" ++ [','] ++
    factJson "/Build" "1042" "2026-07-31T14:02:07Z" ++ "],\"logmon_format\":1\x7d".toList

/-- JSON on the files of the sample run's case. -/
def captureJson : JsonEnv :=
  { sampleJson with
    log := fun e => if e = StoresRun.stalledAt4 then stalledJson else connectedJson
    readLog := fun t =>
      if t = connectedJson then .ok StoresRun.connectedAt1
      else if t = stalledJson then .ok StoresRun.stalledAt4 else .error "expected value at line 1 column 1"
    span := fun _ => timedOutJson
    readSpan := fun t => if t = timedOutJson then .ok StoresRun.timedOutAt2 else .error "expected value at line 1 column 1"
    registry := fun _ => factsJson
    readRegistry := fun t =>
      if t = factsJson then .ok ⟨1, capturedFacts, 0⟩ else .error "expected value at line 1 column 1" }

/-- A host that writes the files, with some JSON. -/
def hostWith (J : JsonEnv) : CreateEnv :=
  { fullDisk with
    document := captureTimes
    json := J
    boot := ⟨"default", "0.1.0", captureTimes.toRfc3339⟩
    capturedAt := 1785507330000000000
    openedAt := 1785507330000000000
    appliedAt := 1785507330000000000
    written := .ok () }

theorem namesStems_hostWith (J : JsonEnv) : (hostWith J).NamesStems := fun _ _ _ _ h =>
  ⟨"20260801T000000Z", none, (Except.ok.inj h).symm, by decide, fun _ h => nomatch h⟩

/-- A capture around a seq, into loose files or one, with some entries. -/
def captureAt (n : UInt64) (separate : Bool) (data : Rpc.Value) : Rpc.Value := .object
  [("reason", .string "stalled"), ("dir", .string "/tmp"), ("separate", .bool separate),
    ("anchor", .object [("seq", .number (some n))]), ("data", data)]

/-- What it prepares, around an anchor that resolves. -/
theorem prepareCase_captureAt (J : JsonEnv) {d : LiveDomain} {session : SessionName} {n : UInt64} (separate : Bool)
    (data : Rpc.Value) {anchor : Anchor} {many : Option ℕ} {cut : Cut}
    (hanchor : resolveCaseAnchor .ascii d session (seqAnchor n) = .ok (anchor, many))
    (hcut : cutWindow d.pipeline d.spanStore anchor.seq 350 350 = .ok cut) :
    prepareCase (hostWith J) (.live d) session (captureAt n separate data) = .ok
      { domain := d, reason := "stalled", dir := "/tmp", separate, omitLogdata := false, omitSpandata := false
        clamped := false, anchor, before := 350, after := 350, cut, namePrefix := none } := by
  show ((resolveCaseAnchor .ascii d session (seqAnchor n)).bind fun p =>
    (cutWindow d.pipeline d.spanStore p.1.seq 350 350).bind fun cut => .ok
      (⟨d, "stalled", "/tmp", separate, false, false, false, p.1, 350, 350, cut, none⟩ : PreparedCase)) = _
  rw [hanchor]
  show ((cutWindow d.pipeline d.spanStore anchor.seq 350 350).bind _) = _
  rw [hcut]
  rfl

/-- An open registry that holds a fact. -/
def builtRegistry : Registry :=
  ((Registry.new.stampBoot (hostWith captureJson).boot 1785506527000000000).update [⟨"/Build", some "1042", none⟩]
    1785506527000000000).1

theorem reach_builtRegistry : Reach Registry.step Registry.daemonCall .new builtRegistry :=
  .next (a := .update [⟨"/Build", some "1042", none⟩] 1785506527000000000) (Registry.reach_stampBoot _ _ .start)
    ⟨trivial, fun _ _ h => nomatch h⟩ rfl

/-- What is recorded as being done. -/
def actionData : Rpc.Value := .array [.object [("path", .string "/Action"), ("value", .string "deploy")]]

/-- A capture around the last record of the sample run, on its domain. -/
def captured (s : StoresRun) : Option Cell × CreateOutcome :=
  handleCasesCreate (hostWith captureJson) (.live (runDomain s "default" .new)) ⟨"a", noSlash_a⟩
    (some (.opened builtRegistry)) (captureAt 4 true actionData)

/-- It makes a case of the whole run, and leaves both facts in the registry. -/
theorem captured_created {s : StoresRun} (h : s.NarrowedLater) {cut : Cut}
    (hcut : cutWindow s.log.pipeline s.spans.ring 4 350 350 = .ok cut) :
    ∃ after prep reply, captured s = (some (.opened after), .created prep reply) ∧ prep.separate = true ∧
      prep.omitLogdata = false ∧ prep.omitSpandata = false ∧ prep.cut = cut ∧
      prep.anchor = anchorOf .seq "4" StoresRun.stalledAt4 ∧
      (after.entries.entries.filter fun p => !isReserved p.1) =
        [("/Action", ⟨"deploy", 1785507330000000000, 1785507330000000000, none⟩),
          ("/Build", ⟨"1042", 1785506527000000000, 1785506527000000000, none⟩)] ∧
      (after.get? "/logmon/incarnation").map DomainData.Entry.value = some "1" := by
  have hprep := prepareCase_captureAt captureJson true actionData (resolve_stalled h "default" ⟨"a", by decide⟩) hcut
  unfold captured handleCasesCreate
  rw [hprep]
  exact ⟨_, _, _, rfl, rfl, rfl, rfl, rfl, rfl, by decide +kernel, by decide +kernel⟩

/-- The records of the case read back. -/
theorem captureJson_log : ∀ e ∈ [StoresRun.connectedAt1, StoresRun.stalledAt4],
    Carried captureJson.log captureJson.readLog e := by
  have hne : connectedJson ≠ stalledJson := fun h => absurd (congrArg (List.drop 7) h) (by decide +kernel)
  simp only [List.forall_mem_cons]
  refine ⟨carried_of_plain ?_ (by decide +kernel), carried_of_plain ?_ (by decide +kernel), List.forall_mem_nil _⟩
  · simp only [captureJson, if_true, if_neg (by decide : StoresRun.connectedAt1 ≠ StoresRun.stalledAt4)]
  · simp only [captureJson, if_true, if_neg hne.symm]

theorem captureJson_span : Carried captureJson.span captureJson.readSpan StoresRun.timedOutAt2 :=
  carried_of_plain (by simp only [captureJson, if_true]) (by decide +kernel)

/-- The registry's file has both facts. -/
theorem caseRegistryCopy_captured {r : Registry} (h : (r.entries.entries.filter fun p => !isReserved p.1) =
    [("/Action", ⟨"deploy", 1785507330000000000, 1785507330000000000, none⟩),
      ("/Build", ⟨"1042", 1785506527000000000, 1785506527000000000, none⟩)]) (now : ℤ) :
    (caseRegistryCopy now (some r)).1 = capturedFacts := by
  show ((r.entries.entries.filter fun p => !isReserved p.1).mergeSort _).map _ = capturedFacts
  rw [h, List.mergeSort_of_pairwise (by decide)]
  rfl

/-- What the sample's capture wrote its case from. -/
structure SampleCase (s : StoresRun) (after : Registry) (prep : PreparedCase) (reply : CaseReply) : Prop where
  run : s.NarrowedLater
  created : captured s = (some (.opened after), .created prep reply)
  separate : prep.separate = true
  omitLogdata : prep.omitLogdata = false
  omitSpandata : prep.omitSpandata = false
  window : prep.cut.fromSeq = 1 ∧ prep.cut.toSeq = 4
  logs : prep.cut.logs = [StoresRun.connectedAt1, StoresRun.stalledAt4]
  spans : prep.cut.spans = [StoresRun.timedOutAt2]
  stretch : (s.log.pipeline.epochs.coverage 1 4).narrowed = [⟨3, 4, ["l>=ERROR"]⟩]
  anchor : prep.anchor = anchorOf .seq "4" StoresRun.stalledAt4
  facts : (after.entries.entries.filter fun p => !isReserved p.1) =
    [("/Action", ⟨"deploy", 1785507330000000000, 1785507330000000000, none⟩),
      ("/Build", ⟨"1042", 1785506527000000000, 1785506527000000000, none⟩)]
  era : (after.get? "/logmon/incarnation").map DomainData.Entry.value = some "1"

theorem exists_sampleCase : ∃ s after prep reply,
    Reach (StoresRun.step .ascii ⟨"default"⟩) StoresRun.counts (.new 4 (by decide) 4 0) s ∧
      SampleCase s after prep reply := by
  obtain ⟨s, hr, hs⟩ := StoresRun.reach_narrowedLater
  have hinv := StoresRun.inv_of_reach hr
  obtain ⟨cut, hcut, hexact⟩ := resolved_caseExact hinv (resolve_stalled hs "default" ⟨"a", by decide⟩) 350 350
  obtain ⟨after, prep, reply, hcaptured, hseparate, hlogs, hspans, rfl, hanchor, hfacts, hera⟩ := captured_created hs hcut
  -- the window is the whole run
  obtain ⟨-, hto, hbelow⟩ := Cut.Exact.of_sample hs hexact.exact
  have hfrom : prep.cut.fromSeq ≤ 1 := by
    simp only [List.filter_cons, List.filter_nil, decide_eq_true_eq] at hbelow
    split_ifs at hbelow <;> simp at hbelow <;> omega
  obtain ⟨hlow, hhigh, -⟩ := cutWindow_parts hcut (by rw [heldSeqs_sample hs]; decide)
  have hends : prep.cut.fromSeq = 1 ∧ prep.cut.toSeq = 4 := by
    rw [heldSeqs_sample hs] at hlow hhigh
    simp only [List.mem_cons, List.not_mem_nil, or_false] at hlow hhigh
    omega
  refine ⟨s, after, prep, reply, hr, hs, hcaptured, hseparate, hlogs, hspans, hends, ?_, ?_, hs.stretch, hanchor, hfacts,
    hera⟩
  · rw [hexact.exact.logs, hs.logs, hends.1, hends.2]
    rfl
  · rw [hexact.exact.spans, hs.spans, hends.1, hends.2]
    rfl

namespace SampleCase

variable {s : StoresRun} {after : Registry} {prep : PreparedCase} {reply : CaseReply}

theorem registryAfter_eq (h : SampleCase s after prep reply) : registryAfter (hostWith captureJson)
    (.live (runDomain s "default" .new)) ⟨"a", by decide⟩ (some (.opened builtRegistry)) (captureAt 4 true actionData) =
      some after := by
  show (captured s).1.map Cell.held = _
  rw [h.created]
  rfl

/-- JSON and RFC 3339 give back the sample's case. -/
theorem carries (h : SampleCase s after prep reply) : (hostWith captureJson).Carries prep (registryAfter
    (hostWith captureJson) (.live (runDomain s "default" .new)) ⟨"a", by decide⟩ (some (.opened builtRegistry))
    (captureAt 4 true actionData)) where
  captured := by decide +kernel
  anchor := by rw [h.anchor]; decide +kernel
  header := sampleJson_header
  logs := by rw [h.logs]; exact captureJson_log
  spans := by rw [h.spans]; exact List.forall_mem_singleton.mpr captureJson_span
  registry := by
    rw [h.registryAfter_eq, caseRegistryCopy_captured h.facts]
    simp only [registryJson, hostWith, captureJson, if_true]
    rfl

end SampleCase

/-- The case of a domain with two facts, loaded. -/
theorem registry_loads_back_two : ∃ s after prep reply archive c, SampleCase s after prep reply ∧
    loadArchive captureTimes captureJson reply.files.stem archive = .ok c ∧
    (loadedRegistry c).get? "/Build" = some ⟨"1042", 1785506527000000000, 1785506527000000000, none⟩ ∧
    (loadedRegistry c).get? "/logmon/incarnation" = some (.new "1" 1785507330000000000 none) ∧
    (loadedRegistry c).get? "/logmon/version" = none := by
  obtain ⟨s, after, prep, reply, hr, h⟩ := exists_sampleCase
  obtain ⟨archive, -, hloads, hback⟩ := registry_loads_back (hostWith captureJson) ⟨"default"⟩ 4 (by decide) 4 0 hr
    "default" .new ⟨"a", by decide⟩ (fun cell hcell => by rw [← Option.some.inj hcell]; exact reach_builtRegistry)
    (captureAt 4 true actionData) (show (captured s).2 = .created prep reply by rw [h.created]) h.omitLogdata
    h.omitSpandata (namesStems_hostWith _) h.carries
  obtain ⟨c, hc⟩ := hloads.mpr (.inl h.separate)
  have hkeys := hback c hc after (by rw [h.registryAfter_eq]; rfl)
  refine ⟨s, after, prep, reply, archive, c, h, hc, ?_, ?_, ?_⟩
  · have hbuild : after.get? "/Build" = some ⟨"1042", 1785506527000000000, 1785506527000000000, none⟩ := by
      refine FMap.mem_iff.mp (List.mem_of_mem_filter (p := fun p => !isReserved p.1) (a := ("/Build", _)) ?_)
      rw [h.facts]
      simp
    rw [hkeys]
    unfold carriedOver
    rw [if_neg (by decide), if_neg (by decide), hbuild]
    rfl
  · obtain ⟨e, he, hvalue⟩ := Option.map_eq_some_iff.mp h.era
    rw [hkeys]
    unfold carriedOver
    rw [if_pos rfl, he, Option.map_some, hvalue]
    rfl
  · rw [hkeys]
    unfold carriedOver
    rw [if_neg (by decide), if_pos (by decide)]

end Cases
end Logmon
