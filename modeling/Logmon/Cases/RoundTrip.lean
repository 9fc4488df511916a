/-
# A case makes the round trip

What a sealed domain is of the stores its case was taken from (`RoundTrip`):
every record of the window, both floors at its lower end, the counter at its
upper end, and for every range inside it the narrowed stretches the live log
answered with, exactly where the range meets no stretch but the newest
`maxStretches`. A range that meets another is not vouched for.

The case is loaded exactly when its files can be read back (`case_round_trip`).
Neither limit is asked for when the case is created, and a counter that has
reached the top of its word loses a stretch there (`case_lost`).

Key definitions: `RoundTrip`, `StoresRun.Flipped`, `flippedJson`.
Key theorems: `roundTrip_of_loaded`, `case_round_trip`, `reach_flipped`,
`case_lost`.
-/
import Logmon.Cases.Reload

namespace Logmon

open Lib

namespace Cases

open DomainData

/-- What a sealed domain is of the stores its case was taken from. -/
structure RoundTrip (s : StoresRun) (cut : Cut) (d : PostmortemDomain) : Prop where
  logs : d.pipeline.store.entries =
    s.log.pipeline.store.entries.filter fun e => cut.fromSeq ≤ e.seq ∧ e.seq ≤ cut.toSeq
  spans : d.spanStore.buffer = s.spans.ring.buffer.filter fun x => cut.fromSeq ≤ x.seq ∧ x.seq ≤ cut.toSeq
  floors : d.pipeline.store.lostBelow = cut.fromSeq ∧ d.spanStore.lostBelow = cut.fromSeq
  counter : d.pipeline.seq = cut.toSeq
  answers : ∀ lo hi, cut.fromSeq ≤ lo → lo ≤ hi → hi ≤ cut.toSeq →
    ((d.pipeline.epochs.coverage lo hi).narrowed = (s.log.pipeline.epochs.coverage lo hi).narrowed ↔
      ∀ n ∈ forgotten (s.log.pipeline.epochs.coverage cut.fromSeq cut.toSeq).narrowed, n.clip lo hi = none)
  unvouched : ∀ lo hi, ∀ n ∈ forgotten (s.log.pipeline.epochs.coverage cut.fromSeq cut.toSeq).narrowed,
    n.clip lo hi ≠ none → (d.pipeline.epochs.coverage lo hi).covered = false

variable {C : CreateEnv} {prep : PreparedCase} {registry : Option Registry} {c : LoadedCase}

/-- **What loads from a prepared case's files is what its stores held.** -/
theorem roundTrip_of_loaded {s : StoresRun} (hinv : s.Inv) (habove : s.Above) (hseq : s.log.pipeline.seq < u64Max)
    (h : PreparedOn s prep) (hc : LoadedFrom C prep registry c) : RoundTrip s prep.cut (assembleCaseDomain c) := by
  have hrecorded := h.recorded hinv habove hseq
  obtain ⟨-, -, hcoverage, -⟩ := cutWindow_parts h.cut h.held
  have hby : c.front.narrowedBy = some (s.log.pipeline.epochs.coverage prep.cut.fromSeq prep.cut.toSeq).narrowed := by
    rw [hc.narrowedBy, hcoverage]
  have hepochs : (assembleCaseDomain c).pipeline.epochs =
      EpochLog.ofTransitions (prep.cut.fromSeq - 1) (narrowing c.front) := by
    rw [← hc.fromSeq]
    rfl
  refine ⟨?_, ?_, ⟨hc.fromSeq, hc.fromSeq⟩, hc.toSeq, fun lo hi hlo hle hhi => ?_, fun lo hi n hn hmeets => ?_⟩
  · show c.logs.getD [] = _
    rw [hc.logs, Option.getD_some, h.exact.logs]
  · show c.spans.getD [] = _
    rw [hc.spans, Option.getD_some, h.exact.spans]
  · rw [hepochs]
    exact hrecorded.answers_iff hby hlo hle hhi
  · rw [hepochs]
    exact hrecorded.covered_of_answers hby hn hmeets

/-- **A case makes the round trip**, in every state two stores reach before
their counter is used up: what a capture wrote, with no evidence omitted, is
loaded exactly when it can be read back, and then the sealed domain is what the
stores held of the window. -/
theorem case_round_trip (C : CreateEnv) (id : DomainId) (capacity : ℕ) (hcap : capacity ≤ u64Max)
    (spanCapacity initialSeq : ℕ) {s : StoresRun}
    (hr : Reach (StoresRun.step C.text id) StoresRun.counts (.new capacity hcap spanCapacity initialSeq) s)
    (hseq : s.log.pipeline.seq < u64Max) (name : String) (bookmarks : BookmarkStore) (session : SessionName)
    {registry : Option Cell} (hregistry : ∀ cell ∈ registry, Reach Registry.step Registry.daemonCall .new cell.held)
    (params : Rpc.Value) {prep : PreparedCase} {reply : CaseReply}
    (hcreated : (handleCasesCreate C (.live (runDomain s name bookmarks)) session registry params).2 = .created prep reply)
    (hlogs : prep.omitLogdata = false) (hspans : prep.omitSpandata = false) (hnames : C.NamesStems)
    (hcarries : C.Carries prep (registryAfter C (.live (runDomain s name bookmarks)) session registry params)) :
    ∃ archive, writeArchive prep.separate reply.files = .ok archive ∧
      ((∃ c, loadArchive C.document C.json reply.files.stem archive = .ok c) ↔ Readable prep.separate reply.files) ∧
      ∀ c, loadArchive C.document C.json reply.files.stem archive = .ok c →
        RoundTrip s prep.cut (assembleCaseDomain c) := by
  obtain ⟨hinv, habove⟩ := StoresRun.above_of_reach hr
  obtain ⟨hprep, -⟩ := handleCasesCreate_created hcreated
  obtain ⟨archive, hwrite, hloads, hback⟩ := archive_created hinv hregistry hcreated hlogs hspans hnames hcarries
  exact ⟨archive, hwrite, hloads, fun c hc => roundTrip_of_loaded hinv habove hseq (preparedOn hinv hprep) (hback c hc)⟩

/-- Two records, a span and a narrowed stretch, captured and loaded. -/
theorem case_round_trip_narrowed : ∃ s after prep reply archive c, SampleCase s after prep reply ∧
    loadArchive captureTimes captureJson reply.files.stem archive = .ok c ∧
    (assembleCaseDomain c).pipeline.store.entries = [StoresRun.connectedAt1, StoresRun.stalledAt4] ∧
    (assembleCaseDomain c).spanStore.buffer = [StoresRun.timedOutAt2] ∧
    ((assembleCaseDomain c).pipeline.epochs.coverage 1 4).narrowed = [⟨3, 4, ["l>=ERROR"]⟩] := by
  obtain ⟨s, after, prep, reply, hr, h⟩ := exists_sampleCase
  obtain ⟨archive, -, hloads, hback⟩ := case_round_trip (hostWith captureJson) ⟨"default"⟩ 4 (by decide) 4 0 hr
    (show s.log.pipeline.seq < u64Max by rw [h.run.seq]; decide) "default" .new ⟨"a", by decide⟩
    (fun cell hcell => by rw [← Option.some.inj hcell]; exact reach_builtRegistry) (captureAt 4 true actionData)
    (show (captured s).2 = .created prep reply by rw [h.created]) h.omitLogdata h.omitSpandata (namesStems_hostWith _)
    h.carries
  obtain ⟨c, hc⟩ := hloads.mpr (.inl h.separate)
  have htrip := hback c hc
  refine ⟨s, after, prep, reply, archive, c, h, hc, ?_, ?_, ?_⟩
  · rw [htrip.logs, h.run.logs, h.window.1, h.window.2]
    rfl
  · rw [htrip.spans, h.run.spans, h.window.1, h.window.2]
    rfl
  · rw [(htrip.answers 1 4 h.window.1.le (by decide) h.window.2.ge).mpr, h.stretch]
    rw [h.window.1, h.window.2, h.stretch]
    exact fun n hn => absurd hn List.not_mem_nil

end Cases

/-! ### A filter that keeps changing -/

namespace StoresRun

/-- The level every other filter is of. -/
def flippedLevel (k : ℕ) : String := if k % 2 = 0 then "ERROR" else "WARN"

/-- One session, whose filter is one of two. -/
def flippedTo (k : ℕ) : SessionRegistry :=
  if k % 2 = 0 then LogRun.oneSession (.qualifiers [.levelFilter .gte .error]) "l>=ERROR" (some "ERROR")
  else LogRun.oneSession (.qualifiers [.levelFilter .gte .warn]) "l>=WARN" (some "WARN")

def flippedPolicy (k : ℕ) : FilterPolicy := .new [if k % 2 = 0 then "l>=ERROR" else "l>=WARN"]

/-- An error that either filter stores, as it is held. -/
def flippedRecord (message : String) (k : ℕ) : LogEntry :=
  { LogEntry.blank (k + 1) with
    level := .error
    timestamp := 1785506527000000000
    message
    matchedFilters := [flippedLevel k] }

def flippedEpoch (k : ℕ) : Epoch := ⟨if k = 0 then 0 else k + 1, flippedPolicy k⟩

/-- Where `n` errors came, each under the other filter than the one before. -/
structure Flipped (message : String) (n : ℕ) (s : StoresRun) : Prop where
  seq : s.log.pipeline.seq = n
  entries : s.log.pipeline.store.entries = (List.range n).map (flippedRecord message)
  capacity : s.log.pipeline.store.maxCapacity = 1000
  floors : s.log.pipeline.store.lostBelow = 0 ∧ s.log.pipeline.store.admitFrom = 0
  epochs : s.log.pipeline.epochs.epochs = (List.range n).map flippedEpoch
  origin : s.log.pipeline.epochs.originSeq = 0
  spans : s.spans.ring.buffer = []

theorem flippedRecord_seq (message : String) {k : ℕ} (hk : k < u64Max) : (flippedRecord message k).seq = k + 1 :=
  min_eq_left hk

theorem Flipped.mem {message : String} {n : ℕ} {s : StoresRun} (h : s.Flipped message n) {k : ℕ} (hk : k < n) :
    flippedRecord message k ∈ s.log.pipeline.store.entries := by
  rw [h.entries]
  exact List.mem_map_of_mem (List.mem_range.mpr hk)

/-- Every record of the run is of the one kind. -/
theorem Flipped.records {message : String} {n : ℕ} {s : StoresRun} (h : s.Flipped message n) (hn : n ≤ u64Max) :
    ∀ e ∈ s.log.pipeline.store.entries, ∃ k < u64Max, e = flippedRecord message k := by
  intro e he
  rw [h.entries] at he
  obtain ⟨k, hk, rfl⟩ := List.mem_map.mp he
  exact ⟨k, lt_of_lt_of_le (List.mem_range.mp hk) hn, rfl⟩

/-- Under either filter an error is observed and stored. -/
theorem arrive_flipped (p : LogPipeline) (k : ℕ) (message : String)
    (hnew : p.containsSeq (assigned p (LogRun.entryAt .error message)).seq = false) :
    processEntryForDomain .ascii p (flippedTo k) ⟨"default"⟩ (LogRun.entryAt .error message) =
      ((((p.assignSeq.preBufferAppend (assigned p (LogRun.entryAt .error message))).observe
          (assigned p (LogRun.entryAt .error message)).seq (flippedPolicy k)).appendToStore
        { assigned p (LogRun.entryAt .error message) with matchedFilters := [flippedLevel k], source := .filter }),
        flippedTo k) := by
  set e := assigned p (LogRun.entryAt .error message) with he
  have hturn : ∀ q : LogPipeline, ((flippedTo k).activeSessionIdsSortedByPreWindowForDomain ⟨"default"⟩).foldl
      (sessionTurn .ascii ⟨"default"⟩ e) ⟨q, flippedTo k, false⟩ = ⟨q, flippedTo k, false⟩ := by
    intro q
    unfold flippedTo
    split <;> rfl
  have hjudge : ∀ q : LogPipeline, judgeEntry .ascii q (flippedTo k) ⟨"default"⟩ e =
      (q.observe e.seq (flippedPolicy k), some { e with matchedFilters := [flippedLevel k], source := .filter }) := by
    intro q
    rw [he]
    unfold flippedTo flippedPolicy flippedLevel
    split <;> rfl
  unfold processEntryForDomain
  dsimp only
  rw [← he, hturn]
  show (storeEntry .ascii (p.assignSeq.preBufferAppend e) (flippedTo k) ⟨"default"⟩ e false, flippedTo k) = _
  unfold storeEntry
  rw [show (p.assignSeq.preBufferAppend e).containsSeq e.seq = false from hnew, if_neg Bool.false_ne_true,
    if_neg Bool.false_ne_true, hjudge]

theorem flippedPolicy_ne (k : ℕ) : flippedPolicy k ≠ flippedPolicy (k + 1) := by
  unfold flippedPolicy
  rcases Nat.mod_two_eq_zero_or_one k with h | h
  · rw [if_pos h, if_neg (by omega)]
    decide
  · rw [if_neg (by omega), if_pos (by omega)]
    decide

/-- Each filter opens an epoch of its own. -/
theorem observe_flipped {l : EpochLog} {k : ℕ} (hepochs : l.epochs = (List.range k).map flippedEpoch)
    (horigin : l.originSeq = 0) (hk : k < epochCapacity) :
    (l.observe (k + 1) (flippedPolicy k)).epochs = (List.range (k + 1)).map flippedEpoch := by
  have hother : ¬ l.epochs.getLast?.any (fun e => e.policy = flippedPolicy k) = true := by
    rw [hepochs]
    cases k with
    | zero => simp
    | succ k => simpa [List.range_succ, flippedEpoch] using flippedPolicy_ne k
  have hflip : l.flipFor (k + 1) = if k = 0 then 0 else k + 1 := by
    unfold EpochLog.flipFor
    rw [hepochs]
    cases k with
    | zero => exact horigin
    | succ k =>
      simp only [List.range_succ, List.map_append, List.map_cons, List.map_nil, List.getLast?_concat]
      rw [if_neg (Nat.succ_ne_zero k)]
      refine max_eq_left ?_
      show (if k = 0 then 0 else k + 1) ≤ _
      split_ifs <;> omega
  unfold EpochLog.observe
  rw [if_neg hother]
  show trimFront epochCapacity (l.pushed (k + 1) (flippedPolicy k)) = _
  rw [EpochLog.pushed, hflip, hepochs, trimFront_eq_drop, List.length_append, List.length_map, List.length_range,
    List.length_singleton, Nat.sub_eq_zero_of_le hk, List.drop_zero, List.range_succ, List.map_append]
  rfl

/-- One more error, under the other filter. -/
theorem Flipped.next {message : String} {k : ℕ} {s : StoresRun} (h : s.Flipped message k) (hk : k < 1000) :
    ∃ s1 s', s.step .ascii ⟨"default"⟩ (.configure (flippedTo k)) = some s1 ∧
      s1.step .ascii ⟨"default"⟩ (.arrive (LogRun.entryAt .error message)) = some s' ∧ s1.log.pipeline.seq = k ∧
      s'.Flipped message (k + 1) := by
  have hword : k + 1 ≤ u64Max := le_trans (by omega : k + 1 ≤ 1000) (by decide)
  have hnext : s.log.pipeline.nextSeq = k + 1 := by
    rw [LogPipeline.nextSeq_eq (by rw [h.seq]; omega), h.seq]
  have hlast : ∀ e ∈ s.log.pipeline.store.entries.getLast?, e.seq < k + 1 := by
    intro e he
    obtain ⟨j, hj, rfl⟩ := List.mem_map.mp (by rw [← h.entries]; exact List.mem_of_getLast? he)
    have hj := List.mem_range.mp hj
    rw [flippedRecord_seq message (by omega)]
    omega
  have hnew : s.log.pipeline.containsSeq (assigned s.log.pipeline (LogRun.entryAt .error message)).seq = false := by
    show s.log.pipeline.store.holds s.log.pipeline.nextSeq = false
    unfold InMemoryStore.holds
    cases hl : s.log.pipeline.store.entries.getLast? with
    | none => rfl
    | some newest => exact if_pos (show newest.seq < s.log.pipeline.nextSeq by rw [hnext]; exact hlast newest hl)
  have hrecord : ({ assigned s.log.pipeline (LogRun.entryAt .error message) with
      matchedFilters := [flippedLevel k], source := .filter } : LogEntry) = flippedRecord message k := by
    unfold assigned flippedRecord LogRun.entryAt LogEntry.blank LogEntry.withSeq
    simp only [hnext, LogEntry.mk.injEq, and_true]
    exact (min_eq_left hword).symm
  have harrive := arrive_flipped s.log.pipeline k message hnew
  rw [hrecord, show (assigned s.log.pipeline (LogRun.entryAt .error message)).seq = k + 1 from hnext] at harrive
  have hstore : (s.log.pipeline.store.append (flippedRecord message k)) =
      { s.log.pipeline.store with
        entries := s.log.pipeline.store.entries ++ [flippedRecord message k]
        totalReceived := s.log.pipeline.store.totalReceived + 1
        totalStored := s.log.pipeline.store.totalStored + 1 } := by
    have hnewest : s.log.pipeline.store.append (flippedRecord message k) =
        s.log.pipeline.store.appendNewest (flippedRecord message k) := by
      unfold InMemoryStore.append
      cases hl : s.log.pipeline.store.entries.getLast? with
      | none => rfl
      | some newest => exact if_pos (show newest.seq < min (k + 1) u64Max by rw [min_eq_left hword]; exact hlast newest hl)
    have hfloor : ¬ (flippedRecord message k).seq <
        max s.log.pipeline.store.lostBelow s.log.pipeline.store.admitFrom := by
      rw [h.floors.1, h.floors.2]
      exact Nat.not_lt_zero _
    have hroom : ¬ s.log.pipeline.store.maxCapacity ≤ s.log.pipeline.store.entries.length := by
      rw [h.capacity, h.entries, List.length_map, List.length_range]
      omega
    rw [hnewest]
    unfold InMemoryStore.appendNewest InMemoryStore.refuseBelow
    dsimp only
    rw [if_neg hfloor, if_neg (by rw [h.capacity]; decide), if_neg hroom]
    rfl
  refine ⟨_, _, rfl, rfl, h.seq, ?_⟩
  have hprocess : (processEntryForDomain .ascii s.log.pipeline (flippedTo k) ⟨"default"⟩
      (LogRun.entryAt .error message)).1 = _ := congrArg Prod.fst harrive
  refine ⟨?_, ?_, ?_, ?_, ?_, ?_, h.spans⟩
  · show (processEntryForDomain _ _ (flippedTo k) _ _).1.seq = _
    rw [hprocess]
    exact hnext
  · show (processEntryForDomain _ _ (flippedTo k) _ _).1.store.entries = _
    rw [hprocess]
    show (s.log.pipeline.store.append (flippedRecord message k)).entries = _
    rw [hstore, List.range_succ, List.map_append, ← h.entries]
    rfl
  · show (processEntryForDomain _ _ (flippedTo k) _ _).1.store.maxCapacity = _
    rw [hprocess]
    show (s.log.pipeline.store.append (flippedRecord message k)).maxCapacity = _
    rw [hstore]
    exact h.capacity
  · show (processEntryForDomain _ _ (flippedTo k) _ _).1.store.lostBelow = _ ∧
      (processEntryForDomain _ _ (flippedTo k) _ _).1.store.admitFrom = _
    rw [hprocess]
    show (s.log.pipeline.store.append (flippedRecord message k)).lostBelow = _ ∧
      (s.log.pipeline.store.append (flippedRecord message k)).admitFrom = _
    rw [hstore]
    exact h.floors
  · show (processEntryForDomain _ _ (flippedTo k) _ _).1.epochs.epochs = _
    rw [hprocess]
    exact observe_flipped h.epochs h.origin (lt_of_lt_of_le hk (by decide))
  · show (processEntryForDomain _ _ (flippedTo k) _ _).1.epochs.originSeq = _
    rw [hprocess]
    show (s.log.pipeline.epochs.observe (k + 1) (flippedPolicy k)).originSeq = _
    unfold EpochLog.observe
    split <;> exact h.origin

theorem thousand_le_u64Max : 1000 ≤ u64Max := by decide

/-- Any number of errors up to the ring's capacity. -/
theorem reach_flipped (message : String) : ∀ n ≤ 1000, ∃ s,
    Reach (step .ascii ⟨"default"⟩) counts (new 1000 thousand_le_u64Max 4 0) s ∧ s.Flipped message n
  | 0, _ => ⟨_, .start, rfl, rfl, rfl, ⟨rfl, rfl⟩, rfl, rfl, rfl⟩
  | k + 1, hk => by
    obtain ⟨s, hr, h⟩ := reach_flipped message k (by omega)
    obtain ⟨s1, s', h1, h2, hseq, hnext⟩ := h.next hk
    have hword : k < u64Max := lt_of_lt_of_le hk thousand_le_u64Max
    refine ⟨s', .next (.next hr ?_ h1) ?_ h2, hnext⟩
    · rintro act hact
      obtain rfl := Option.some.inj hact
      trivial
    · rintro act hact
      obtain rfl := Option.some.inj hact
      show s1.log.pipeline.seq < u64Max
      rw [hseq]
      exact hword

end StoresRun

namespace Cases

open DomainData StoresRun

/-- The JSON of such an error. -/
def flippedText (e : LogEntry) : List Char :=
  logJson e.seq "Error" e.message ("\"" ++ e.matchedFilters.headD "" ++ "\"")

/-- It is read by its seq. -/
def readFlipped (message : String) (t : List Char) : Except String LogEntry :=
  match parseNat? u64Max ((t.drop 7).takeWhile Char.isDigit) with
  | some n =>
    if flippedText (flippedRecord message (n - 1)) = t then .ok (flippedRecord message (n - 1))
    else .error "expected value at line 1 column 1"
  | none => .error "expected value at line 1 column 1"

/-- JSON on the files of a case of such errors. -/
def flippedJson (message : String) : JsonEnv :=
  { sampleJson with
    log := flippedText
    readLog := readFlipped message }

/-- What follows the seq in a log's JSON. -/
theorem logJson_eq (seq : ℕ) (level message matched : String) : ∃ rest : List Char,
    logJson seq level message matched = "\x7b\"seq\":".toList ++ (decimal seq ++ ',' :: rest) ∧
      message.toList.length ≤ rest.length ∧
      ((message.toList ++ level.toList ++ matched.toList).all (fun c => decide (' ' ≤ c)) = true →
        rest.all (fun c => decide (' ' ≤ c)) = true) := by
  refine ⟨"\"timestamp\":".toList ++ "\"2026-07-31T14:02:07Z\"".toList ++
    ",\"level\":\"".toList ++ level.toList ++ "\",\"message\":\"".toList ++ message.toList ++
    "\",\"full_message\":null".toList ++ ",\"host\":\"\"".toList ++ ",\"facility\":null".toList ++
    ",\"file\":null,\"line\":null".toList ++ ",\"additional_fields\":\x7b\x7d".toList ++
    ",\"matched_filters\":[".toList ++ matched.toList ++ "],\"source\":\"Filter\"\x7d".toList, ?_, ?_, ?_⟩
  · unfold logJson
    rw [show ",\"timestamp\":".toList = ',' :: "\"timestamp\":".toList by decide]
    simp only [List.append_assoc, List.cons_append]
  · simp only [List.length_append]
    omega
  · intro h
    simp only [List.all_append, Bool.and_eq_true] at h
    obtain ⟨⟨hmessage, hlevel⟩, hmatched⟩ := h
    simp only [List.all_append, hmessage, hlevel, hmatched, Bool.and_true]
    decide +kernel

theorem flippedJson_log {message : String} (hplain : (message.toList.all fun c => decide (' ' ≤ c)) = true) {k : ℕ}
    (hk : k < u64Max) : Carried flippedText (readFlipped message) (flippedRecord message k) := by
  have hseq := flippedRecord_seq message hk
  obtain ⟨rest, htext, -, hrest⟩ := logJson_eq (k + 1) "Error" message ("\"" ++ flippedLevel k ++ "\"")
  have hflipped : flippedText (flippedRecord message k) = "\x7b\"seq\":".toList ++ (decimal (k + 1) ++ ',' :: rest) := by
    rw [← htext, ← hseq]
    rfl
  have hdigits : ((flippedText (flippedRecord message k)).drop 7).takeWhile Char.isDigit = decimal (k + 1) := by
    rw [hflipped, List.drop_left' (by decide)]
    refine (takeWhile_append_stop (fun c hc => isDigit_of_mem_toString hc) ?_).1
    rintro c hc
    obtain rfl := Option.some.inj hc
    decide
  refine carried_of_plain ?_ ?_
  · unfold readFlipped
    rw [hdigits, decimal, parseNat?_toString hk]
    exact if_pos rfl
  · rw [hflipped, Bool.and_eq_true]
    refine ⟨rfl, ?_⟩
    have hbefore : (decimal (k + 1)).all (fun c => decide (' ' ≤ c)) = true := by
      refine List.all_eq_true.mpr fun c hc => decide_eq_true ?_
      obtain ⟨hdigit, -⟩ : 48 ≤ c.val ∧ c.val ≤ 57 := by simpa [Char.isDigit] using isDigit_of_mem_toString hc
      exact UInt32.le_trans (show ' '.val ≤ 48 by decide) hdigit
    have hafter : rest.all (fun c => decide (' ' ≤ c)) = true := by
      refine hrest ?_
      rw [List.all_append, List.all_append, hplain]
      unfold flippedLevel
      split <;> decide +kernel
    rw [List.all_append, List.all_append, List.all_cons, hbefore, hafter]
    decide +kernel

/-- An open registry without facts. -/
def startedRegistry : Registry := Registry.new.stampBoot (hostWith sampleJson).boot 1785506527000000000

/-- A capture around a seq, of a domain that holds such errors. -/
def capturedFlipped (message : String) (s : StoresRun) (n : UInt64) (separate : Bool) : Option Cell × CreateOutcome :=
  handleCasesCreate (hostWith (flippedJson message)) (.live (runDomain s "default" .new)) ⟨"a", noSlash_a⟩
    (some (.opened startedRegistry)) (captureAt n separate (.array []))

/-- What it wrote, and that JSON and RFC 3339 give it back. -/
structure FlippedCase (message : String) (s : StoresRun) (n : UInt64) (separate : Bool) (prep : PreparedCase)
    (reply : CaseReply) : Prop where
  created : (capturedFlipped message s n separate).2 = .created prep reply
  apart : prep.separate = separate
  omitLogdata : prep.omitLogdata = false
  omitSpandata : prep.omitSpandata = false
  anchor : prep.anchor.seq = n.toNat
  sides : prep.before = 350 ∧ prep.after = 350
  on : PreparedOn s prep
  carries : (hostWith (flippedJson message)).Carries prep (registryAfter (hostWith (flippedJson message))
    (.live (runDomain s "default" .new)) ⟨"a", noSlash_a⟩ (some (.opened startedRegistry))
    (captureAt n separate (.array [])))

theorem exists_flippedCase {message : String} (hplain : (message.toList.all fun c => decide (' ' ≤ c)) = true)
    {s : StoresRun} (hinv : s.Inv)
    (hrecords : ∀ e ∈ s.log.pipeline.store.entries, ∃ k < u64Max, e = flippedRecord message k)
    (hspans : s.spans.ring.buffer = []) {n : UInt64} {e : LogEntry} (he : e ∈ s.log.pipeline.store.entries)
    (hn : n.toNat = e.seq) (separate : Bool) : ∃ prep reply, FlippedCase message s n separate prep reply := by
  have hanchor : resolveCaseAnchor .ascii (runDomain s "default" .new) ⟨"a", noSlash_a⟩ (seqAnchor n) =
      .ok (anchorOf .seq (toString n.toNat) e, none) :=
    resolveCaseAnchor_of_held (d := runDomain s "default" .new) hinv.log.sound.wf he hn
  obtain ⟨cut, hcut, -⟩ := resolved_caseExact hinv hanchor 350 350
  obtain ⟨prep, hprep, hseparate, hlogs, hspandata, hresolved, hsides⟩ : ∃ prep : PreparedCase,
      prepareCase (hostWith (flippedJson message)) (.live (runDomain s "default" .new)) ⟨"a", noSlash_a⟩
        (captureAt n separate (.array [])) = .ok prep ∧ prep.separate = separate ∧ prep.omitLogdata = false ∧
        prep.omitSpandata = false ∧ prep.anchor = anchorOf .seq (toString n.toNat) e ∧
        prep.before = 350 ∧ prep.after = 350 :=
    ⟨_, prepareCase_captureAt (flippedJson message) separate (.array []) hanchor hcut, rfl, rfl, rfl, rfl, rfl, rfl⟩
  obtain ⟨reply, after, hcreated, hfacts⟩ : ∃ reply after, capturedFlipped message s n separate =
      (some (.opened after), .created prep reply) ∧ (after.entries.entries.filter fun p => !isReserved p.1) = [] := by
    unfold capturedFlipped handleCasesCreate
    rw [hprep]
    refine ⟨_, _, rfl, ?_⟩
    show (startedRegistry.entries.entries.filter fun p => !isReserved p.1) = []
    decide +kernel
  have hon := preparedOn hinv hprep
  have hcarries : (hostWith (flippedJson message)).Carries prep (some after) :=
    { captured := by
        show captureTimes.parseRfc3339 (captureTimes.toRfc3339 1785507330000000000) = some 1785507330000000000
        decide +kernel
      anchor := by
        obtain ⟨k, -, rfl⟩ := hrecords e he
        rw [hresolved]
        show captureTimes.parseRfc3339 (captureTimes.toRfc3339 1785506527000000000) = some 1785506527000000000
        decide +kernel
      header := sampleJson_header
      logs := by
        intro x hx
        rw [hon.exact.logs] at hx
        obtain ⟨k, hk, rfl⟩ := hrecords x (List.mem_of_mem_filter hx)
        exact flippedJson_log hplain hk
      spans := by
        rw [hon.exact.spans, hspans]
        exact List.forall_mem_nil _
      registry := by
        have hcopy : (caseRegistryCopy (hostWith (flippedJson message)).capturedAt (some after)).1 = [] := by
          show ((after.entries.entries.filter fun p => !isReserved p.1).mergeSort _).map _ = []
          rw [hfacts, List.mergeSort_nil]
          rfl
        rw [hcopy]
        simp only [registryJson, hostWith, flippedJson, sampleJson, if_true]
        rfl }
  refine ⟨prep, reply, by rw [hcreated], hseparate, hlogs, hspandata, ?_, hsides, hon, ?_⟩
  · rw [hresolved, hn]
    rfl
  · have hafter : registryAfter (hostWith (flippedJson message)) (.live (runDomain s "default" .new)) ⟨"a", noSlash_a⟩
        (some (.opened startedRegistry)) (captureAt n separate (.array [])) = some after := by
      show (capturedFlipped message s n separate).1.map Cell.held = _
      rw [hcreated]
      rfl
    rw [hafter]
    exact hcarries

namespace FlippedCase

variable {message : String} {s : StoresRun} {n : UInt64} {separate : Bool} {prep : PreparedCase} {reply : CaseReply}

/-- As loose files it loads. -/
theorem loads (h : FlippedCase message s n true prep reply) (hinv : s.Inv) : ∃ registry archive c,
    writeArchive prep.separate reply.files = .ok archive ∧
      loadArchive captureTimes (flippedJson message) reply.files.stem archive = .ok c ∧
      LoadedFrom (hostWith (flippedJson message)) prep registry c := by
  obtain ⟨archive, hwrite, hloads, hback⟩ := archive_created hinv
    (fun cell hcell => by rw [← Option.some.inj hcell]; exact Registry.reach_stampBoot _ _ .start) h.created
    h.omitLogdata h.omitSpandata (namesStems_hostWith _) h.carries
  obtain ⟨c, hc⟩ := hloads.mpr (.inl h.apart)
  exact ⟨_, archive, c, hwrite, hc, hback c hc⟩

theorem heldSeqs_flipped {k : ℕ} (hk : k ≤ 1000) (hs : s.Flipped message k) :
    heldSeqs s.log.pipeline s.spans.ring = (List.range k).map (· + 1) := by
  rw [heldSeqs, hs.entries, hs.spans, List.map_nil, List.append_nil, List.map_map]
  exact List.map_congr_left fun j hj =>
    flippedRecord_seq message (lt_of_lt_of_le (List.mem_range.mp hj) (le_trans hk thousand_le_u64Max))

/-- Around the middle one of 513, the window is the whole run. -/
theorem window (h : FlippedCase message s 257 separate prep reply) (hs : s.Flipped message 513) :
    prep.cut.fromSeq = 1 ∧ prep.cut.toSeq = 513 := by
  have hheld := heldSeqs_flipped (by decide) hs
  obtain ⟨hfrom, hto, -⟩ := cutWindow_parts h.on.cut h.on.held
  have hwhole := h.on.exact.window.whole (by rw [h.anchor, h.sides.1, hheld]; decide +kernel)
    (by rw [h.anchor, h.sides.2, hheld]; decide +kernel)
  rw [hheld] at hfrom hto hwhole
  obtain ⟨i, hi, hfrom⟩ := List.mem_map.mp hfrom
  obtain ⟨j, hj, hto⟩ := List.mem_map.mp hto
  rw [List.mem_range] at hi hj
  have hfirst := (hwhole 1 (List.mem_map.mpr ⟨0, List.mem_range.mpr (by decide), rfl⟩)).1
  have hlast := (hwhole 513 (List.mem_map.mpr ⟨512, List.mem_range.mpr (by decide), rfl⟩)).2
  omega

/-- The oldest of its stretches is forgotten when it is loaded. -/
theorem first_forgotten (hs : s.Flipped message 513) :
    (⟨1, 1, ["l>=ERROR"]⟩ : NarrowedSpan) ∈ forgotten (s.log.pipeline.epochs.coverage 1 513).narrowed := by
  rw [coverage_narrowed, hs.epochs]
  decide +kernel

end FlippedCase

theorem length_le_textBytes (text : List Char) : text.length ≤ textBytes text := by
  unfold textBytes
  induction text with
  | nil => exact Nat.zero_le _
  | cons c text ih =>
    rw [show c :: text = [c] ++ text from rfl, String.ofList_append, String.utf8ByteSize_append, List.length_append]
    exact Nat.add_le_add (Nat.succ_le_of_lt (by simpa using c.utf8Size_pos)) ih

/-- A file of records is as long as they are. -/
theorem length_writeJsonl {T : Type} (J : JsonEnv) (kind : String) {write : T → List Char} {m : ℕ} {records : List T}
    (h : ∀ x ∈ records, m ≤ (write x).length) : records.length * m ≤ (writeJsonl J kind write records).length := by
  have hlines : records.length * m ≤ ((records.map write).flatMap fun line => line ++ ['\n']).length := by
    induction records with
    | nil => simp
    | cons x l ih =>
      have hx := h x List.mem_cons_self
      have hrest := ih fun y hy => h y (List.mem_cons_of_mem _ hy)
      have hmul : (l.length + 1) * m = l.length * m + m := Nat.succ_mul _ _
      simp only [List.map_cons, List.flatMap_cons, List.length_append, List.length_cons, List.length_nil] at hrest ⊢
      omega
  unfold writeJsonl
  rw [List.flatMap_cons, List.length_append]
  omega

/-- Records with a long message do not fit a bundle. -/
theorem FlippedCase.not_readable {message : String} {s : StoresRun} {n : UInt64} {prep : PreparedCase} {reply : CaseReply}
    (h : FlippedCase message s n false prep reply) (hlogs : ∀ e ∈ prep.cut.logs, ∃ k, e = flippedRecord message k)
    (hlarge : maxEntryBytes < prep.cut.logs.length * message.toList.length) : ¬ Readable prep.separate reply.files := by
  rintro (hsep | hall)
  · rw [h.apart] at hsep
    cases hsep
  obtain ⟨stem, applied, -, -, hfiles⟩ := created_files h.created
  have hentry : (logdataName reply.files.stem, writeJsonl (flippedJson message) "logdata" flippedText prep.cut.logs) ∈
      caseEntries reply.files := by
    rw [hfiles]
    unfold caseFiles caseEntries
    rw [h.omitLogdata]
    simp [hostWith, flippedJson]
  have hlong : prep.cut.logs.length * message.toList.length ≤
      (writeJsonl (flippedJson message) "logdata" flippedText prep.cut.logs).length := by
    refine length_writeJsonl _ _ fun e he => ?_
    obtain ⟨k, rfl⟩ := hlogs e he
    obtain ⟨rest, htext, hlength, -⟩ := logJson_eq (flippedRecord message k).seq "Error" message
      ("\"" ++ flippedLevel k ++ "\"")
    rw [show flippedText (flippedRecord message k) = logJson (flippedRecord message k).seq "Error" message
      ("\"" ++ flippedLevel k ++ "\"") from rfl, htext]
    simp only [List.length_append, List.length_cons]
    omega
  exact absurd (hall _ hentry) (Nat.not_le.mpr (lt_of_lt_of_le hlarge (le_trans hlong (length_le_textBytes _))))

/-- 513 long records, captured into one file: it is written, and not read
back. -/
theorem refused_of_long {message : String} (hplain : (message.toList.all fun c => decide (' ' ≤ c)) = true)
    (hlong : maxEntryBytes < 513 * message.toList.length) : ∃ s prep reply archive,
    Reach (StoresRun.step .ascii ⟨"default"⟩) StoresRun.counts (.new 1000 thousand_le_u64Max 4 0) s ∧
      FlippedCase message s 257 false prep reply ∧ writeArchive prep.separate reply.files = .ok archive ∧
      ∀ c, loadArchive captureTimes (flippedJson message) reply.files.stem archive ≠ .ok c := by
  obtain ⟨s, hr, hs⟩ := reach_flipped message 513 (by decide)
  obtain ⟨prep, reply, hcase⟩ := exists_flippedCase (n := 257) hplain (StoresRun.inv_of_reach hr)
    (hs.records (by decide)) hs.spans (hs.mem (by decide : 256 < 513)) rfl false
  obtain ⟨archive, hwrite, hread⟩ := loadArchive_written captureTimes (flippedJson message) prep.separate reply.files
  obtain ⟨hlow, hhigh⟩ := hcase.window hs
  have hlogs : prep.cut.logs = (List.range 513).map (flippedRecord message) := by
    rw [hcase.on.exact.logs, hs.entries, hlow, hhigh, List.filter_eq_self]
    intro e he
    obtain ⟨k, hk, rfl⟩ := List.mem_map.mp he
    have hk := List.mem_range.mp hk
    rw [flippedRecord_seq message (lt_of_lt_of_le hk (by decide))]
    exact decide_eq_true (by omega)
  refine ⟨s, prep, reply, archive, hr, hcase, hwrite, fun c hc => hcase.not_readable ?_ ?_ ((hread c).mp hc).1⟩
  · rw [hlogs]
    intro e he
    obtain ⟨k, -, rfl⟩ := List.mem_map.mp he
    exact ⟨k, rfl⟩
  · rw [hlogs, List.length_map, List.length_range]
    exact hlong

/-- A message of as many characters. -/
def longMessage (m : ℕ) : String := String.ofList (List.replicate m 'x')

theorem longMessage_plain (m : ℕ) : ((longMessage m).toList.all fun c => decide (' ' ≤ c)) = true := by
  rw [longMessage, String.toList_ofList, List.all_eq_true]
  intro c hc
  rw [List.eq_of_mem_replicate hc]
  decide

theorem length_longMessage (m : ℕ) : (longMessage m).toList.length = m := by
  rw [longMessage, String.toList_ofList, List.length_replicate]

/-- From a counter, a run's case around a seq is written and loaded, and for a
range inside its window the loaded log answers otherwise than the live one. -/
def AnswersOtherwise (initialSeq : ℕ) (n : UInt64) (lo hi : ℕ) : Prop := ∃ s prep reply archive c,
  Reach (StoresRun.step .ascii ⟨"default"⟩) StoresRun.counts (.new 1000 thousand_le_u64Max 4 initialSeq) s ∧
    FlippedCase "stalled" s n true prep reply ∧ writeArchive prep.separate reply.files = .ok archive ∧
    loadArchive captureTimes (flippedJson "stalled") reply.files.stem archive = .ok c ∧
    (prep.cut.fromSeq ≤ lo ∧ lo ≤ hi ∧ hi ≤ prep.cut.toSeq) ∧
    ((assembleCaseDomain c).pipeline.epochs.coverage lo hi).narrowed ≠ (s.log.pipeline.epochs.coverage lo hi).narrowed

/-- 513 stretches: the oldest is forgotten. -/
theorem first_stretch_lost : AnswersOtherwise 0 257 1 1 := by
  obtain ⟨s, hr, hs⟩ := reach_flipped "stalled" 513 (by decide)
  obtain ⟨hinv, habove⟩ := StoresRun.above_of_reach hr
  obtain ⟨prep, reply, hcase⟩ := exists_flippedCase (n := 257) (by decide) hinv (hs.records (by decide)) hs.spans
    (hs.mem (by decide : 256 < 513)) rfl true
  obtain ⟨registry, archive, c, hwrite, hload, hfrom⟩ := hcase.loads hinv
  obtain ⟨hlow, hhigh⟩ := hcase.window hs
  refine ⟨s, prep, reply, archive, c, hr, hcase, hwrite, hload, ⟨hlow.le, le_rfl, by rw [hhigh]; decide⟩, ?_⟩
  have htrip := roundTrip_of_loaded hinv habove (by rw [hs.seq]; decide) hcase.on hfrom
  intro heq
  rw [htrip.answers 1 1 hlow.le le_rfl (by rw [hhigh]; decide), hlow, hhigh] at heq
  exact absurd (heq _ (FlippedCase.first_forgotten hs)) (by decide)

/-- One stalled record, at the last seq there is. -/
def atTheTop : List StoresAct := [.configure (flippedTo 0), .arrive (LogRun.entryAt .error "stalled")]

/-- What that run leaves. -/
structure AtTheTop (s : StoresRun) : Prop where
  entries : s.log.pipeline.store.entries = [flippedRecord "stalled" (u64Max - 1)]
  spans : s.spans.ring.buffer = []
  stretch : (s.log.pipeline.epochs.coverage u64Max u64Max).narrowed = [⟨u64Max, u64Max, ["l>=ERROR"]⟩]

instance (s : StoresRun) : Decidable (AtTheTop s) :=
  decidable_of_iff (s.log.pipeline.store.entries = [flippedRecord "stalled" (u64Max - 1)] ∧ s.spans.ring.buffer = [] ∧
      (s.log.pipeline.epochs.coverage u64Max u64Max).narrowed = [⟨u64Max, u64Max, ["l>=ERROR"]⟩])
    ⟨fun h => ⟨h.1, h.2.1, h.2.2⟩, fun h => ⟨h.entries, h.spans, h.stretch⟩⟩

theorem reach_atTheTop : ∃ s,
    Reach (StoresRun.step .ascii ⟨"default"⟩) StoresRun.counts (.new 1000 thousand_le_u64Max 4 (u64Max - 1)) s ∧
      AtTheTop s :=
  reach_decided atTheTop (by decide +kernel)

/-- A stretch at the last seq there is: it is closed where it begins. -/
theorem top_stretch_lost : AnswersOtherwise (u64Max - 1) 18446744073709551615 u64Max u64Max := by
  obtain ⟨s, hr, hs⟩ := reach_atTheTop
  have hinv := StoresRun.inv_of_reach hr
  have hmem : flippedRecord "stalled" (u64Max - 1) ∈ s.log.pipeline.store.entries := by
    rw [hs.entries]
    exact List.mem_singleton_self _
  have hrecords : ∀ e ∈ s.log.pipeline.store.entries, ∃ k < u64Max, e = flippedRecord "stalled" k := by
    intro e he
    rw [hs.entries, List.mem_singleton] at he
    exact ⟨u64Max - 1, by decide, he⟩
  obtain ⟨prep, reply, hcase⟩ := exists_flippedCase (n := 18446744073709551615) (by decide) hinv hrecords hs.spans hmem
    (by decide +kernel) true
  obtain ⟨registry, archive, c, hwrite, hload, hfrom⟩ := hcase.loads hinv
  have hheld : heldSeqs s.log.pipeline s.spans.ring = [u64Max] := by
    rw [heldSeqs, hs.entries, hs.spans]
    rfl
  obtain ⟨hlow, hhigh, hcoverage, -⟩ := cutWindow_parts hcase.on.cut hcase.on.held
  rw [hheld, List.mem_singleton] at hlow hhigh
  refine ⟨s, prep, reply, archive, c, hr, hcase, hwrite, hload, ⟨hlow.le, le_rfl, hhigh.ge⟩, ?_⟩
  have hepochs : (assembleCaseDomain c).pipeline.epochs =
      .ofTransitions (u64Max - 1) (sortByKey Prod.fst ([⟨u64Max, u64Max, ["l>=ERROR"]⟩].flatMap transitionsOf)) := by
    show EpochLog.ofTransitions (c.fromSeq - 1)
      (sortByKey Prod.fst ((c.front.narrowedBy.getD []).flatMap transitionsOf)) = _
    rw [hfrom.fromSeq, hfrom.narrowedBy, hcoverage, hlow, hhigh, hs.stretch]
    rfl
  rw [hepochs, hs.stretch]
  decide +kernel

/-- **Not every case makes the round trip.** 513 records of a MiB each in one
bundle are written and not loaded; a window of 513 stretches loses its oldest;
and a stretch at the last seq there is is lost. -/
theorem case_lost :
    (∃ s prep reply archive,
      Reach (StoresRun.step .ascii ⟨"default"⟩) StoresRun.counts (.new 1000 thousand_le_u64Max 4 0) s ∧
        FlippedCase (longMessage 1048576) s 257 false prep reply ∧ writeArchive prep.separate reply.files = .ok archive ∧
        ∀ c, loadArchive captureTimes (flippedJson (longMessage 1048576)) reply.files.stem archive ≠ .ok c) ∧
      AnswersOtherwise 0 257 1 1 ∧ AnswersOtherwise (u64Max - 1) 18446744073709551615 u64Max u64Max :=
  ⟨refused_of_long (longMessage_plain 1048576) (by rw [length_longMessage]; decide), first_stretch_lost, top_stretch_lost⟩

end Cases
end Logmon
