/-
# The labels of one collector's runs

A snapshot reserves its label in one locked section and is filed under it in
another; until then nothing in the history says that the label is taken. The
history forgets the labels of the runs it evicts, and a restart brings back
what the file on disk says. An explicit label may therefore be reserved by two
calls at once, and an automatic label may be one that a caller used by hand
and that is still in flight, or was evicted before the counter came to it
(`labels_clash`).

The only labels an automatic one can meet are those ahead of the counter. So
the labels identify their runs along every run of the daemon in which no call
asks for a label in flight, no automatic label is asked for while one ahead of
the counter is in flight, and no eviction or restart forgets one ahead of the
counter or takes the counter back (`labels_identify_runs`).

Key definitions: `restoreHistory`, `History.isAhead`, `LabelRun`,
`LabelRun.careful`.
Key theorems: `LabelRun.Inv.step`, `labels_identify_runs`, `labels_clash`.
-/
import Logmon.Collector.Registry
import Logmon.Lib.Reach

namespace Logmon

open Lib CollectorRegistry

variable {W Span : Type}

/-! ### Reading a file back -/

/-- `level_from_str`. -/
def SampleLevel.fromStr (s : String) : Except String SampleLevel :=
  if s = "scalar" then .ok .scalar
  else if s = "timing" then .ok .timing
  else if s = "tree" then .ok .tree
  else .error ("unknown level `" ++ s ++ "`")

/-- `Metric::parse`, without the texts of its errors. -/
def Metric.parse? (s : String) : Option Metric :=
  [Metric.count, .totalMs, .avgMs, .errorCount, .errorRatePct].find? fun m => m.asStr == s

/-- `Op::parse`, without the text of its error. -/
def ThresholdOp.parse? (s : String) : Option ThresholdOp :=
  if s = "gt" ∨ s = ">" then some .gt
  else if s = "gte" ∨ s = ">=" then some .gte
  else if s = "lt" ∨ s = "<" then some .lt
  else if s = "lte" ∨ s = "<=" then some .lte
  else none

/-- `none` where the source drops a threshold it cannot represent. -/
def PersistedThreshold.restore? (t : PersistedThreshold) : Option Threshold :=
  match Metric.parse? t.metric, ThresholdOp.parse? t.op with
  | some metric, some op => some { metric, group := t.group, op, value := t.value, windowMs := t.windowMs }
  | _, _ => none

/-- A recorded run of the collector `name`. The bytes of its totals, which the
window stands for, are those that were written. -/
def PersistedSnapshot.restore (env : CollectorEnv W Span) (s : PersistedSnapshot W) (name : String) :
    Except String (StoredSnapshot W) :=
  match SampleLevel.fromStr s.level with
  | .error e => .error e
  | .ok level =>
    match env.parseFilter s.filter with
    | .error e => .error ("recorded filter `" ++ s.filter ++ "` no longer parses: " ++ e)
    | .ok filter => .ok
        { label := s.label, description := s.description, metaText := s.metaText, takenAt := s.takenAt
          defn :=
            { name, filterString := s.filter, filter, level, groupKeys := s.groupKeys,
              maxSampleBytes := s.maxSampleBytes, description := s.collectorDescription,
              threshold := s.threshold.bind PersistedThreshold.restore? }
          policy := ⟨s.policyPerName, s.policyPerGroup, s.policyProjections⟩
          windowStart := s.windowStart, window := s.window
          ingest :=
            match s.ingestDropped, s.ingestShedBatches, s.ingestMalformed with
            | some dropped, some shedBatches, some malformed => some { dropped, shedBatches, malformed }
            | _, _, _ => none }

namespace History

/-- The counters a file recorded. -/
def restoreCounters (h : History W) (nextAuto evicted : ℕ) : History W := 
  { h with nextAuto := Nat.max nextAuto 1, evicted }

/-- The labels of the runs retained, oldest first. -/
def labels (h : History W) : List String := h.snapshots.map StoredSnapshot.label

end History

/-- The loop of `restore_history`: a run that cannot be restored does not
condemn the others. -/
def restoreRuns (env : CollectorEnv W Span) (name : String) :
    List (PersistedSnapshot W) → History W × List String → History W × List String
  | [], acc => acc
  | s :: rest, (h, errors) =>
    match s.restore env name with
    | .ok snap => restoreRuns env name rest (h.push snap, errors)
    | .error e => restoreRuns env name rest (h, errors ++ ["snapshot `" ++ s.label ++ "`: " ++ e])

/-- `restore_history`. -/
def restoreHistory (env : CollectorEnv W Span) (file : PersistedCollector W) : History W × List String :=
  let (h, errors) := restoreRuns env file.name file.snapshots (.new, [])
  (h.restoreCounters file.nextAutoLabel file.snapshotsEvicted, errors)

/-! ### Labels -/

namespace History

/-- The number of an automatic label. -/
def autoNumber (label : String) : ℕ := Nat.ofDigitChars 10 (label.toList.drop 9) 0

/-- An automatic label that the counter has not come to. -/
def isAhead (next : ℕ) (label : String) : Bool := autoName (autoNumber label) == label && next ≤ autoNumber label

theorem autoNumber_autoName (n : ℕ) : autoNumber (autoName n) = n := by
  unfold autoNumber autoName
  rw [String.toList_append, show "snapshot-".toList = ['s', 'n', 'a', 'p', 's', 'h', 'o', 't', '-'] from rfl]
  simp

theorem isAhead_autoName {next n : ℕ} : isAhead next (autoName n) = true ↔ next ≤ n := by
  simp [isAhead, autoNumber_autoName]

theorem isAhead_mono {next next' : ℕ} {label : String} (hle : next ≤ next') (h : isAhead next' label = true) :
    isAhead next label = true := by
  simp only [isAhead, Bool.and_eq_true, decide_eq_true_eq] at h ⊢
  exact ⟨h.1, Nat.le_trans hle h.2⟩

theorem hasLabel_iff {h : History W} {label : String} : h.hasLabel label = true ↔ label ∈ h.labels := by
  simp [hasLabel, labels]

/-- The label the loop ends on is ahead of where it started, and the counter
is then past it. -/
theorem autoLabel_number (h : History W) : ∀ fuel n, ∃ m, n ≤ m ∧ h.autoLabel fuel n = (autoName m, m + 1)
  | 0, n => ⟨n, Nat.le_refl n, rfl⟩
  | fuel + 1, n => by
    unfold autoLabel
    split
    · obtain ⟨m, hm, he⟩ := autoLabel_number h fuel (n + 1)
      exact ⟨m, by omega, he⟩
    · exact ⟨n, Nat.le_refl n, rfl⟩

theorem trim_suffix (max : ℕ) : ∀ (l : List (StoredSnapshot W)) (evicted : ℕ), (trim max l evicted).1 <:+ l
  | [], _ => List.suffix_refl _
  | s :: rest, evicted => by
    unfold trim
    split
    · exact (trim_suffix max rest _).trans (List.suffix_cons _ _)
    · exact List.suffix_refl _

theorem labels_push (h : History W) (snap : StoredSnapshot W) : (h.push snap).labels <:+ h.labels ++ [snap.label] := by
  have := (trim_suffix h.max (h.snapshots ++ [snap]) h.evicted).map StoredSnapshot.label
  simpa [labels, push] using this

end History

theorem labels_restoreRuns (env : CollectorEnv W Span) (name : String) : ∀ (ss : List (PersistedSnapshot W))
    (acc : History W × List String),
    List.Sublist (restoreRuns env name ss acc).1.labels (acc.1.labels ++ ss.map PersistedSnapshot.label)
  | [], acc => by simp [restoreRuns]
  | s :: rest, (h, errors) => by
    unfold restoreRuns
    split
    · rename_i snap hsnap
      have hlabel : snap.label = s.label := by
        unfold PersistedSnapshot.restore at hsnap
        split at hsnap
        · simp at hsnap
        split at hsnap
        · simp at hsnap
        · obtain rfl := Except.ok.inj hsnap
          rfl
      refine (labels_restoreRuns env name rest _).trans ?_
      have := (h.labels_push snap).sublist.append_right (rest.map PersistedSnapshot.label)
      simpa [hlabel] using this
    · refine (labels_restoreRuns env name rest _).trans ?_
      exact List.Sublist.append_left (List.sublist_cons_self _ _) _

/-- What is restored was in the file. -/
theorem labels_restoreHistory (env : CollectorEnv W Span) (file : PersistedCollector W) :
    List.Sublist (restoreHistory env file).1.labels (file.snapshots.map PersistedSnapshot.label) :=
  labels_restoreRuns env file.name file.snapshots (.new, [])

/-! ### Runs -/

/-- One collector: its entry, the runs taken and not yet filed, the files
built and not yet saved, its file, and every label reserved, the newest first,
each marked when it was automatic. -/
structure LabelRun (W : Type) where
  entry : Entry W
  taken : List (StoredSnapshot W)
  prepared : List (PersistedCollector W)
  disk : PersistedCollector W
  used : List (Bool × String)

/-- What can happen next. A write that fails, or that the end of the daemon
overtakes, is a file never saved. -/
inductive LabelAct
  /-- Step 1 of a snapshot. -/
  | take (req : SnapshotRequest)
  /-- Step 3 of the `i`-th run taken. -/
  | file (i : ℕ)
  /-- The `i`-th file built is saved. -/
  | save (i : ℕ)
  /-- The daemon ends, at any point, and starts again. -/
  | restart (now : ℤ)

namespace LabelRun

/-- A collector just armed, its file written. -/
def start (e : Entry W) : LabelRun W :=
  { entry := { e with history := .new }, taken := [], prepared := [],
    disk := { e with history := .new }.toPersisted, used := [] }

/-- What a restart makes of the entry: the history its file describes over an
empty window. The definition and the pin, which no snapshot changes, are the
file's too. -/
def restored (env : CollectorEnv W Span) (now : ℤ) (file : PersistedCollector W) (e : Entry W) : Entry W :=
  { e with collector := e.collector.swap env now, history := (restoreHistory env file).1,
           zeroedBy := some .daemonRestart }

def step (env : CollectorEnv W Span) (loss : ℕ → TraceIngestLoss) (s : LabelRun W) : LabelAct → Option (LabelRun W)
  | .take req =>
    match req.policy.validate s.entry.collector.defn.level with
    | .error _ => none
    | .ok () =>
      match s.entry.history.reserveLabel req.label with
      | .error _ => none
      | .ok (label, h) =>
        some { s with entry := takenFrom env loss req h s.entry, taken := s.taken ++ [runOf loss req label s.entry],
                      used := (req.label.isNone, label) :: s.used }
  | .file i =>
    match s.taken[i]? with
    | none => none
    | some snap =>
      some { s with entry := filed snap s.entry, taken := s.taken.eraseIdx i,
                    prepared := s.prepared ++ [(filed snap s.entry).toPersisted] }
  | .save i =>
    match s.prepared[i]? with
    | none => none
    | some file => some { s with disk := file, prepared := s.prepared.eraseIdx i }
  | .restart now => some { s with entry := restored env now s.disk s.entry, taken := [], prepared := [] }

/-- Of some runs, the history retains those whose labels are ahead of the
counter. -/
def retains (h : History W) (runs : List (StoredSnapshot W)) : Bool :=
  runs.all fun x => h.hasLabel x.label || !History.isAhead h.nextAuto x.label

/-- No call asks for a label in flight, and no automatic label is asked for
while one ahead of the counter is in flight; no eviction or restart forgets a
label ahead of the counter, and no restart takes the counter back. -/
def careful (env : CollectorEnv W Span) (s : LabelRun W) : LabelAct → Bool
  | .take req =>
    match req.label with
    | some l => !s.taken.any fun x => x.label == l
    | none => s.taken.all fun x => !History.isAhead s.entry.history.nextAuto x.label
  | .file i =>
    match s.taken[i]? with
    | none => true
    | some snap => retains (s.entry.history.push snap) (s.entry.history.snapshots ++ [snap])
  | .save _ => true
  | .restart _ =>
    s.entry.history.nextAuto ≤ (restoreHistory env s.disk).1.nextAuto &&
      retains (restoreHistory env s.disk).1 (s.entry.history.snapshots ++ s.taken)

/-- The labels in the history and in flight. -/
def live (s : LabelRun W) : List String := s.entry.history.labels ++ s.taken.map StoredSnapshot.label

/-- What holds in every state. -/
structure Inv (s : LabelRun W) : Prop where
  distinct : s.live.Nodup
  ahead : ∀ x ∈ s.used, History.isAhead s.entry.history.nextAuto x.2 = true → x.2 ∈ s.live
  files : ∀ f ∈ s.disk :: s.prepared, (f.snapshots.map PersistedSnapshot.label).Nodup
  fresh : s.used.Pairwise fun newer older => newer.1 = true → newer.2 ≠ older.2

variable {env : CollectorEnv W Span} {loss : ℕ → TraceIngestLoss} {s s' : LabelRun W}

theorem mem_live_iff {l : String} : l ∈ s.live ↔ ∃ x ∈ s.entry.history.snapshots ++ s.taken, x.label = l := by
  simp [live, History.labels, ← exists_or, or_and_right]

theorem retains_iff {h : History W} {runs : List (StoredSnapshot W)} : retains h runs = true ↔
    ∀ x ∈ runs, History.isAhead h.nextAuto x.label = true → x.label ∈ h.labels := by
  simp only [retains, List.all_eq_true, Bool.or_eq_true, History.hasLabel_iff, Bool.not_eq_true']
  refine forall₂_congr fun x _ => ?_
  cases History.isAhead h.nextAuto x.label <;> simp

/-- A label reserved: new among the live ones, and an automatic one new among
all that were used. -/
theorem Inv.take (h : Inv s) {label : String} {auto : Bool} {next : ℕ} (hfresh : label ∉ s.live)
    (hauto : auto = true → ∀ x ∈ s.used, label ≠ x.2) (hnext : s.entry.history.nextAuto ≤ next) {e : Entry W}
    (hhist : e.history = { s.entry.history with nextAuto := next }) {run : StoredSnapshot W} (hrun : run.label = label) :
    Inv { s with entry := e, taken := s.taken ++ [run], used := (auto, label) :: s.used } := by
  have hlive : live { s with entry := e, taken := s.taken ++ [run], used := (auto, label) :: s.used } =
      s.live ++ [label] := by
    simp [live, hhist, History.labels, hrun]
  refine ⟨?_, fun x hx hahead => ?_, h.files, List.pairwise_cons.mpr ⟨fun x hx ha => hauto ha x hx, h.fresh⟩⟩
  · rw [hlive]
    exact List.nodup_append.mpr ⟨h.distinct, List.nodup_singleton _, by simpa using fun a ha => (ne_of_mem_of_not_mem ha hfresh)⟩
  · rw [hlive]
    rcases List.mem_cons.mp hx with rfl | hx
    · simp
    · rw [show Entry.history _ = _ from hhist] at hahead
      exact List.mem_append_left _ (h.ahead x hx (History.isAhead_mono hnext hahead))

/-- A run filed. -/
theorem Inv.file (h : Inv s) {i : ℕ} {snap : StoredSnapshot W} (hi : s.taken[i]? = some snap)
    (hgood : retains (s.entry.history.push snap) (s.entry.history.snapshots ++ [snap]) = true) :
    Inv { s with entry := filed snap s.entry, taken := s.taken.eraseIdx i,
                 prepared := s.prepared ++ [(filed snap s.entry).toPersisted] } := by
  obtain ⟨hlt, hget⟩ := List.getElem?_eq_some_iff.mp hi
  have hperm : (snap :: s.taken.eraseIdx i).Perm s.taken := hget ▸ List.getElem_cons_eraseIdx_perm hlt
  -- what is live after is some of what was live before
  have hsub : List.Sublist ((s.entry.history.push snap).labels ++ (s.taken.eraseIdx i).map StoredSnapshot.label)
      (s.entry.history.labels ++ (snap :: s.taken.eraseIdx i).map StoredSnapshot.label) := by
    have := (s.entry.history.labels_push snap).sublist.append_right ((s.taken.eraseIdx i).map StoredSnapshot.label)
    simpa using this
  have hbefore : (s.entry.history.labels ++ (snap :: s.taken.eraseIdx i).map StoredSnapshot.label).Perm s.live :=
    (hperm.map _).append_left _
  have hdistinct := hsub.nodup (hbefore.nodup_iff.mpr h.distinct)
  refine ⟨hdistinct, fun x hx hahead => ?_, ?_, h.fresh⟩
  · show x.2 ∈ (s.entry.history.push snap).labels ++ (s.taken.eraseIdx i).map StoredSnapshot.label
    have hin := hbefore.mem_iff.mpr (h.ahead x hx hahead)
    rw [List.map_cons, List.append_cons] at hin
    rcases List.mem_append.mp hin with hin | hin
    · refine List.mem_append_left _ ?_
      have hin : x.2 ∈ (s.entry.history.snapshots ++ [snap]).map StoredSnapshot.label := by
        rw [List.map_append]
        exact hin
      obtain ⟨run, hrun, hlabel⟩ := List.mem_map.mp hin
      rw [← hlabel]
      exact retains_iff.mp hgood run hrun (hlabel ▸ hahead)
    · exact List.mem_append_right _ hin
  · intro f hf
    rw [← List.cons_append] at hf
    rcases List.mem_append.mp hf with hf | hf
    · exact h.files f hf
    · obtain rfl := List.mem_singleton.mp hf
      have hlabels : (filed snap s.entry).toPersisted.snapshots.map PersistedSnapshot.label =
          (s.entry.history.push snap).labels := by
        simp [Entry.toPersisted, Entry.persistedWith, filed, History.labels, PersistedSnapshot.of, Function.comp_def]
      rw [hlabels]
      exact (List.nodup_append.mp hdistinct).1

/-- A restart. -/
theorem Inv.restart (h : Inv s) (now : ℤ)
    (hnext : s.entry.history.nextAuto ≤ (restoreHistory env s.disk).1.nextAuto)
    (hgood : retains (restoreHistory env s.disk).1 (s.entry.history.snapshots ++ s.taken) = true) :
    Inv { s with entry := restored env now s.disk s.entry, taken := [], prepared := [] } := by
  have hlive : live { s with entry := restored env now s.disk s.entry, taken := [], prepared := [] } =
      (restoreHistory env s.disk).1.labels := by
    simp [live, restored]
  refine ⟨?_, fun x hx hahead => ?_, ?_, h.fresh⟩
  · rw [hlive]
    exact (labels_restoreHistory env s.disk).nodup (h.files s.disk List.mem_cons_self)
  · rw [hlive]
    obtain ⟨run, hrun, hlabel⟩ := mem_live_iff.mp (h.ahead x hx (History.isAhead_mono hnext hahead))
    rw [← hlabel]
    exact retains_iff.mp hgood run hrun (hlabel ▸ hahead)
  · intro f hf
    rw [List.mem_singleton.mp hf]
    exact h.files s.disk List.mem_cons_self

/-- What step 1 finds: an explicit label that no retained run has, or the
automatic one the loop ends on. -/
theorem reserveLabel_ok {h h' : History W} {req : Option String} {label : String}
    (hr : h.reserveLabel req = .ok (label, h')) :
    (req = some label ∧ label ∉ h.labels ∧ h' = h) ∨
      (req = none ∧ label ∉ h.labels ∧ ∃ m, h.nextAuto ≤ m ∧ label = History.autoName m ∧ h' = { h with nextAuto := m + 1 }) := by
  cases req with
  | some l =>
    simp only [History.reserveLabel] at hr
    split at hr
    · simp at hr
    split at hr
    · simp at hr
    · rename_i hfree
      simp only [Except.ok.injEq, Prod.mk.injEq] at hr
      obtain ⟨rfl, rfl⟩ := hr
      exact .inl ⟨rfl, fun hin => hfree (History.hasLabel_iff.mpr hin), rfl⟩
  | none =>
    simp only [History.reserveLabel, Except.ok.injEq, Prod.mk.injEq] at hr
    obtain ⟨m, hm, he⟩ := h.autoLabel_number h.snapshots.length h.nextAuto
    have hfree := h.autoLabel_fresh h.nextAuto
    rw [he] at hr hfree
    obtain ⟨rfl, rfl⟩ := hr
    exact .inr ⟨rfl, fun hin => by simp [History.hasLabel_iff.mpr hin] at hfree, m, hm, rfl, rfl⟩

/-- **A step keeps the labels apart** where it is careful. -/
theorem Inv.step (h : Inv s) {a : LabelAct} (hgood : s.careful env a = true) (hs : s.step env loss a = some s') :
    Inv s' := by
  cases a with
  | take req =>
    simp only [LabelRun.step] at hs
    split at hs
    · simp at hs
    split at hs
    · simp at hs
    rename_i label hist hr
    obtain rfl := Option.some.inj hs
    rcases reserveLabel_ok hr with ⟨hreq, hnew, rfl⟩ | ⟨hreq, hnew, m, hm, rfl, rfl⟩
    · simp only [careful, hreq, Bool.not_eq_true', List.any_eq_false, beq_iff_eq] at hgood
      refine h.take (fun hin => ?_) (by simp [hreq]) (Nat.le_refl _) (takenFrom_history _ _ _) rfl
      rcases List.mem_append.mp hin with hin | hin
      · exact hnew hin
      · obtain ⟨x, hx, hl⟩ := List.mem_map.mp hin
        exact hgood x hx hl
    · simp only [careful, hreq, List.all_eq_true, Bool.not_eq_true'] at hgood
      have hahead := History.isAhead_autoName.mpr hm
      have hfresh : History.autoName m ∉ s.live := by
        intro hin
        rcases List.mem_append.mp hin with hin | hin
        · exact hnew hin
        · obtain ⟨x, hx, hl⟩ := List.mem_map.mp hin
          have := hgood x hx
          rw [hl, hahead] at this
          simp at this
      refine h.take hfresh (fun _ x hx he => hfresh ?_) (by omega) (takenFrom_history _ _ _) rfl
      rw [he] at hahead ⊢
      exact h.ahead x hx hahead
  | file i =>
    simp only [LabelRun.step] at hs
    split at hs
    · simp at hs
    · rename_i snap hi
      obtain rfl := Option.some.inj hs
      exact h.file hi (by simpa [careful, hi] using hgood)
  | save i =>
    simp only [LabelRun.step] at hs
    split at hs
    · simp at hs
    · rename_i file hi
      obtain rfl := Option.some.inj hs
      refine ⟨h.distinct, h.ahead, fun f hf => h.files f ?_, h.fresh⟩
      rcases List.mem_cons.mp hf with rfl | hf
      · exact List.mem_cons_of_mem _ (List.mem_of_getElem? hi)
      · exact List.mem_cons_of_mem _ (List.mem_of_mem_eraseIdx hf)
  | restart now =>
    obtain rfl := Option.some.inj hs
    simp only [careful, Bool.and_eq_true, decide_eq_true_eq] at hgood
    exact h.restart now hgood.1 hgood.2

end LabelRun

/-- **Labels identify runs**: along every run of careful steps the labels in
the history are distinct, and an automatic label is none that the collector
used before, whatever was evicted and however often the daemon restarted. -/
theorem labels_identify_runs (env : CollectorEnv W Span) (loss : ℕ → TraceIngestLoss) (e : Entry W) {s : LabelRun W}
    (hreach : Reach (LabelRun.step env loss) (fun s a => s.careful env a = true) (LabelRun.start e) s) :
    (s.entry.history.snapshots.map StoredSnapshot.label).Nodup ∧
      s.used.Pairwise fun newer older => newer.1 = true → newer.2 ≠ older.2 := by
  have h : s.Inv := by
    refine hreach.invariant (I := LabelRun.Inv) ⟨?_, ?_, ?_, .nil⟩ fun s a s' h hgood hs => h.step hgood hs
    · simp [LabelRun.start, LabelRun.live, History.labels, History.new, History.withMax]
    · simp [LabelRun.start]
    · simp [LabelRun.start, Entry.toPersisted, Entry.persistedWith, History.new, History.withMax]
  exact ⟨(List.nodup_append.mp h.distinct).1, h.fresh⟩

/-- A collector for the runs on fixed inputs. -/
def labelled : Entry ℕ := CollectorRegistry.armed .counting (fun _ => 0) (.withBudget 10) ⟨"o", by decide⟩ ⟨"default"⟩ 0
  (.sample "a" 1) 0

/-- A snapshot under a label of the caller's. -/
def SnapshotRequest.under (label : String) : SnapshotRequest := { SnapshotRequest.plain "a" with label := some label }

theorem labels_identify_runs_restarted : ∃ s : LabelRun ℕ,
    runActs (LabelRun.step .counting fun _ => 0) (LabelRun.start labelled)
      [.take (.plain "a"), .take (.under "snapshot-2"), .file 1, .file 0, .save 1, .restart 9, .take (.plain "a")] = some s ∧
    s.used = [(true, "snapshot-3"), (false, "snapshot-2"), (true, "snapshot-1")] ∧
    (s.entry.history.snapshots.map StoredSnapshot.label).Nodup ∧
    s.used.Pairwise fun newer older => newer.1 = true → newer.2 ≠ older.2 := by
  refine ⟨_, rfl, by decide, ?_⟩
  exact labels_identify_runs .counting (fun _ => 0) labelled
    (reach_guarded (fun _ _ h => h) [.take (.plain "a"), .take (.under "snapshot-2"), .file 1, .file 0, .save 1, .restart 9,
      .take (.plain "a")] .start rfl)

/-- A label taken by hand ahead of the counter, and as many runs after it as
evict it. -/
def evictedByHand : List LabelAct :=
  [.take (.under "snapshot-51"), .file 0] ++
    (List.replicate 50 [LabelAct.take (.plain "a"), LabelAct.file 0]).flatten ++ [.take (.plain "a")]

/-- Two calls at once under one label; an automatic label while a caller's own
is in flight; and, one call after another, an automatic label that a caller
used by hand before it was evicted. -/
theorem labels_clash :
    (∃ s : LabelRun ℕ, runActs (LabelRun.step .counting fun _ => 0) (LabelRun.start labelled)
        [.take (.under "x"), .take (.under "x"), .file 0, .file 0] = some s ∧
      ¬ (s.entry.history.snapshots.map StoredSnapshot.label).Nodup) ∧
    (∃ s : LabelRun ℕ, runActs (LabelRun.step .counting fun _ => 0) (LabelRun.start labelled)
        [.take (.under "snapshot-1"), .take (.plain "a")] = some s ∧
      s.used = [(true, "snapshot-1"), (false, "snapshot-1")]) ∧
    (runActs (LabelRun.step .counting fun _ => 0) (LabelRun.start labelled) evictedByHand).map
        (fun s => (s.used.head?, s.used.getLast?)) =
      some (some (true, "snapshot-51"), some (false, "snapshot-51")) := by
  refine ⟨⟨_, rfl, ?_⟩, ⟨_, rfl, ?_⟩, ?_⟩
  · decide
  · decide
  · decide +kernel

end Logmon
