/-
# The readers agree

Five readers walk the ring five ways: a count of matches from either end, a
visit of every match, a trace's records through the index, the records
between two cuts, a record with its neighbours. Each comes to the held
records in seq order: a prefix or a reversed suffix of the matches, the
trace's part, the part between two seqs, a window around one record.

The one place they part is a `recent` query for no record: it takes a match
before it looks at its count. A window's end is a `usize` sum, which is the
plain one for a ring and a window of the sizes the callers admit.

Key definitions: `Reached`, `forEachMatching`, `logsByTraceId`,
`rangeWithFloor`, `contextBySeqUsize`, `OneStory`.
Key theorems: `recent_eq`, `contextBySeq_eq`, `one_story_iff`.
-/
import Logmon.Store.Reference
import Logmon.Store.Read

namespace Logmon

open Lib

/-- What a walk of the whole ring examined and what it kept. -/
structure ScanCounts where
  scanned : ℕ
  matched : ℕ
  oldestSeq : Option ℕ
  newestSeq : Option ℕ
  lostBelow : ℕ
  deriving DecidableEq

namespace InMemoryStore

/-- The rings the writers reach, from an empty ring or from a case's records;
a case's records lie at or above the floor it is loaded with. -/
inductive Reached : InMemoryStore → Prop
  | new (capacity : ℕ) (h : capacity ≤ u64Max) : Reached (new capacity h)
  | loaded (capacity : ℕ) (records : List LogEntry) (lostBelow : ℕ) (h : max capacity records.length ≤ u64Max) :
      Asc LogEntry.seq records → (∀ e ∈ records, lostBelow ≤ e.seq) →
      Reached (fromRecords capacity records lostBelow h)
  | write {r : InMemoryStore} (op : RingOp) : Reached r → Reached (r.apply op)

/-- A loaded ring is well formed. -/
theorem wf_fromRecords (capacity : ℕ) {records : List LogEntry} {lostBelow : ℕ}
    (h : max capacity records.length ≤ u64Max) (hasc : Asc LogEntry.seq records)
    (hlost : ∀ e ∈ records, lostBelow ≤ e.seq) : (fromRecords capacity records lostBelow h).WF where
  asc := hasc
  len := le_max_right _ _
  lost := hlost
  admits _ _ := Nat.zero_le _
  index := indexes_byTrace records
  late := ⟨by simp [fromRecords], by simp [fromRecords]⟩
  lateHeld := by simp [fromRecords]

theorem Reached.wf {r : InMemoryStore} (h : r.Reached) : r.WF := by
  induction h with
  | new capacity h => exact wf_new capacity h
  | loaded capacity records lostBelow h hasc hlost => exact wf_fromRecords capacity h hasc hlost
  | write op _ ih => exact ih.apply op

/-! ### The readers -/

variable (E : TextEnv)

/-- `LogStore::recent`. -/
def recent (r : InMemoryStore) (count : ℕ) (filter : Option ParsedFilter) (oldestFirst : Bool) : List LogEntry :=
  (recentWithView E r count filter oldestFirst).1

/-- One record of the walk: examined, and visited when it matches. -/
def visitMatching (filter : Option ParsedFilter) (w : List LogEntry × ScanCounts) (e : LogEntry) :
    List LogEntry × ScanCounts :=
  let counts := { w.2 with scanned := w.2.scanned + 1 }
  if !matchesOpt? E filter e then (w.1, counts)
  else (w.1 ++ [e], { counts with matched := counts.matched + 1 })

/-- `for_each_matching`: the records visited, in order, and the counts. -/
def forEachMatching (r : InMemoryStore) (filter : Option ParsedFilter) : List LogEntry × ScanCounts :=
  r.entries.foldl (visitMatching E filter)
    ([], ⟨0, 0, r.entries.head?.map LogEntry.seq, r.entries.getLast?.map LogEntry.seq, r.lostBelow⟩)

/-- `logs_by_trace_id`: the trace's seqs from the index, each looked up. -/
def logsByTraceId (r : InMemoryStore) (traceId : ℕ) : List LogEntry :=
  match r.traceIndex.get? traceId with
  | none => []
  | some seqs => seqs.filterMap r.record?

/-- `range_with_floor`: the records of an inclusive range, and the floor. -/
def rangeWithFloor (r : InMemoryStore) (fromSeq toSeq : ℕ) : List LogEntry × ℕ :=
  (between LogEntry.seq fromSeq toSeq r.entries, r.lostBelow)

/-! ### The walk of every match -/

variable {E} {r : InMemoryStore} {filter : Option ParsedFilter}

theorem foldl_visitMatching : ∀ (l : List LogEntry) (w : List LogEntry × ScanCounts),
    l.foldl (visitMatching E filter) w = (w.1 ++ l.filter (matchesOpt? E filter), { w.2 with
      scanned := w.2.scanned + l.length
      matched := w.2.matched + (l.filter (matchesOpt? E filter)).length })
  | [], w => by simp
  | e :: l, w => by
    rw [List.foldl_cons, foldl_visitMatching l]
    by_cases hm : matchesOpt? E filter e = true
    · simp [visitMatching, hm]
      omega
    · simp [visitMatching, hm]
      omega

/-- **The walk visits every match**, and counts what it examined and what it
visited. -/
theorem forEachMatching_eq : r.forEachMatching E filter = (r.entries.filter (matchesOpt? E filter),
    { scanned := r.entries.length
      matched := (r.entries.filter (matchesOpt? E filter)).length
      oldestSeq := r.entries.head?.map LogEntry.seq
      newestSeq := r.entries.getLast?.map LogEntry.seq
      lostBelow := r.lostBelow }) := by
  unfold forEachMatching
  rw [foldl_visitMatching]
  simp

/-- With no filter the walk visits what is held. -/
theorem forEachMatching_none : (r.forEachMatching E none).1 = r.entries := by
  rw [forEachMatching_eq]
  exact List.filter_eq_self.mpr fun _ _ => rfl

/-! ### The walk of a count -/

/-- A walk for no record is the walk for one: the match is taken before the
count is looked at. -/
theorem recentWalk_zero : ∀ (l : List LogEntry) (w : List LogEntry × ℕ),
    recentWalk E 0 filter l w = recentWalk E 1 filter l w
  | [], _ => rfl
  | e :: l, (result, n) => by
    by_cases hm : matchesOpt? E filter e = true
    · simp [recentWalk, hm]
    · simp only [recentWalk, hm, Bool.not_false, ↓reduceIte]
      exact recentWalk_zero l _

/-- **What a `recent` query takes**: the first matches from its end, up to its
count and never fewer than one. -/
theorem recent_eq (count : ℕ) (oldestFirst : Bool) : r.recent E count filter oldestFirst =
    ((if oldestFirst then r.entries else r.entries.reverse).filter (matchesOpt? E filter)).take (max count 1) := by
  have htake : ∀ {n}, 0 < n → ∀ l, (recentWalk E n filter l ([], 0)).1 = (l.filter (matchesOpt? E filter)).take n := by
    intro n hn l
    rw [recentWalk_fst l [] 0 (by simpa using hn)]
    simp
  unfold recent recentWithView
  rcases Nat.eq_zero_or_pos count with rfl | hpos
  · simp only [recentWalk_zero]
    exact htake (by omega) _
  · rw [max_eq_left (by omega)]
    exact htake hpos _

theorem recent_oldest (count : ℕ) : r.recent E count filter true =
    (r.forEachMatching E filter).1.take (max count 1) := by
  rw [recent_eq, forEachMatching_eq]
  rfl

theorem recent_newest (count : ℕ) : r.recent E count filter false =
    ((r.forEachMatching E filter).1.drop ((r.forEachMatching E filter).1.length - max count 1)).reverse := by
  rw [recent_eq, forEachMatching_eq, List.reverse_drop]
  simp only [Bool.false_eq_true, ↓reduceIte, List.filter_reverse]
  rcases le_total (max count 1) (r.entries.filter (matchesOpt? E filter)).length with h | h
  · rw [Nat.sub_sub_self h]
  · rw [Nat.sub_eq_zero_of_le h, Nat.sub_zero, List.take_of_length_le (by simpa using h),
      List.take_of_length_le (by simp)]

/-! ### The trace, the range and the window -/

theorem WF.filterMap_record? (h : r.WF) (t : ℕ) :
    (traceSeqs r.entries t).filterMap r.record? = r.entries.filter fun e => e.traceId = some t := by
  unfold traceSeqs
  rw [List.filterMap_map]
  have hfound : ∀ e ∈ r.entries.filter (fun e => e.traceId = some t), (r.record? ∘ LogEntry.seq) e = some e :=
    fun e he => (record?_eq_some h.asc).mpr ⟨(List.mem_filter.mp he).1, rfl⟩
  rw [List.filterMap_congr hfound, List.filterMap_some]

theorem WF.logsByTraceId_eq (h : r.WF) (t : ℕ) :
    r.logsByTraceId t = r.entries.filter fun e => e.traceId = some t := by
  rw [← h.filterMap_record? t]
  unfold logsByTraceId
  rw [h.index t]
  by_cases hnil : traceSeqs r.entries t = []
  · rw [if_pos hnil, hnil]
    rfl
  · rw [if_neg hnil]

theorem WF.rangeWithFloor_eq (h : r.WF) (a b : ℕ) :
    (r.rangeWithFloor a b).1 = r.entries.filter fun e => decide (a ≤ e.seq ∧ e.seq ≤ b) := by
  refine Asc.ext LogEntry.seq (h.asc.sublist (between_sublist a b r.entries)) (h.asc.filter _) fun e => ?_
  rw [rangeWithFloor, h.asc.mem_between, List.mem_filter, decide_eq_true_eq]

/-- A held record's place is the number of records before it. -/
theorem WF.position_eq (h : r.WF) {pre post : List LogEntry} {e : LogEntry} (hsplit : r.entries = pre ++ e :: post) :
    r.position e.seq = some pre.length := by
  have hbelow : ∀ x ∈ pre, x.seq < e.seq := by
    have hasc := h.asc
    rw [hsplit] at hasc
    exact fun x hx => (asc_append.mp hasc).2.2 x hx e List.mem_cons_self
  unfold position
  have hpre : pre.findIdx? (fun x => decide (x.seq = e.seq)) = none := by
    rw [List.findIdx?_eq_none_iff]
    intro x hx
    have := hbelow x hx
    simp only [decide_eq_false_iff_not]
    omega
  rw [hsplit, List.findIdx?_append, hpre, List.findIdx?_cons]
  simp

/-- **The window around a held record**: at most `before` records below it and
`after` above it, in one slice. -/
theorem WF.contextBySeq_eq (h : r.WF) {pre post : List LogEntry} {e : LogEntry}
    (hsplit : r.entries = pre ++ e :: post) (before after : ℕ) :
    r.contextBySeq e.seq before after = pre.drop (pre.length - before) ++ e :: post.take after := by
  have htake : r.entries.take (min (pre.length + after + 1) r.entries.length) = pre ++ e :: post.take after := by
    rw [← List.take_eq_take_min, hsplit, Nat.add_assoc, List.take_length_add_append, List.take_succ_cons]
  unfold contextBySeq
  rw [h.position_eq hsplit]
  simp only
  rw [htake, List.drop_append_of_le_length (Nat.sub_le _ _)]

theorem WF.contextBySeq_eq_nil (h : r.WF) (s before after : ℕ) :
    r.contextBySeq s before after = [] ↔ ∀ e ∈ r.entries, e.seq ≠ s := by
  constructor
  · rintro hnil e he rfl
    obtain ⟨pre, post, hsplit⟩ := List.append_of_mem he
    rw [h.contextBySeq_eq hsplit] at hnil
    simp at hnil
  · intro hnone
    have hpos : r.position s = none := by
      unfold position
      rw [List.findIdx?_eq_none_iff]
      intro e he
      simpa using hnone e he
    unfold contextBySeq
    rw [hpos]

/-- `MAX_CONTEXT_WINDOW`: no larger window reaches the store. -/
def maxContextWindow : ℕ := maxBufferSize

/-- `context_by_seq` over `usize`: its end wraps, and a range that then ends
before its start panics. -/
def contextBySeqUsize (r : InMemoryStore) (seq before after : ℕ) : Option (List LogEntry) :=
  match r.position seq with
  | none => some []
  | some idx =>
    let stop := min ((idx + after + 1) % 2 ^ 64) r.entries.length
    if idx - before ≤ stop then some ((r.entries.take stop).drop (idx - before)) else none

/-- **The sum is in range** for the rings and the windows there are. -/
theorem contextBySeqUsize_eq (r : InMemoryStore) (hring : r.entries.length ≤ maxBufferSize) (s before : ℕ) {after : ℕ}
    (hafter : after ≤ maxContextWindow) : r.contextBySeqUsize s before after = some (r.contextBySeq s before after) := by
  unfold contextBySeqUsize contextBySeq
  cases hpos : r.position s with
  | none => rfl
  | some idx =>
    have hidx : idx < r.entries.length := (List.findIdx?_eq_some_iff_getElem.mp hpos).1
    have hword : idx + after + 1 < 2 ^ 64 := by
      unfold maxContextWindow maxBufferSize at *
      omega
    dsimp only
    rw [Nat.mod_eq_of_lt hword, if_pos (by omega)]

/-! ### One story -/

/-- The readers tell one story of the ring, at a filter and a count. -/
structure OneStory (E : TextEnv) (r : InMemoryStore) (filter : Option ParsedFilter) (count : ℕ) : Prop where
  oldest : r.recent E count filter true = (r.forEachMatching E filter).1.take count
  newest : r.recent E count filter false =
    ((r.forEachMatching E filter).1.drop ((r.forEachMatching E filter).1.length - count)).reverse
  trace : ∀ t, r.logsByTraceId t = (r.forEachMatching E none).1.filter fun e => e.traceId = some t
  range : ∀ a b, (r.rangeWithFloor a b).1 = (r.forEachMatching E none).1.filter fun e => decide (a ≤ e.seq ∧ e.seq ≤ b)
  window : ∀ pre e post before after, (r.forEachMatching E none).1 = pre ++ e :: post →
    r.contextBySeq e.seq before after = pre.drop (pre.length - before) ++ e :: post.take after
  noWindow : ∀ s before after,
    r.contextBySeq s before after = [] ↔ ∀ e ∈ (r.forEachMatching E none).1, e.seq ≠ s
  usize : r.entries.length ≤ maxBufferSize → ∀ s before after, after ≤ maxContextWindow →
    r.contextBySeqUsize s before after = some (r.contextBySeq s before after)

/-- **The readers tell one story exactly when a query asks for a record or has
none to take.** -/
theorem one_story_iff (E : TextEnv) {r : InMemoryStore} (hr : r.Reached) (filter : Option ParsedFilter) (count : ℕ) :
    OneStory E r filter count ↔ 0 < count ∨ ∀ e ∈ r.entries, matchesOpt? E filter e = false := by
  have hwf := hr.wf
  constructor
  · intro h
    rcases Nat.eq_zero_or_pos count with rfl | hpos
    · have hone := h.oldest
      rw [recent_oldest, forEachMatching_eq, List.take_zero] at hone
      have hnil : r.entries.filter (matchesOpt? E filter) = [] := by
        simpa using List.take_eq_nil_iff.mp hone
      exact .inr fun e he => by simpa using List.filter_eq_nil_iff.mp hnil e he
    · exact .inl hpos
  · intro hcond
    -- either the floor of one changes nothing, or there is nothing to count
    have hmax : max count 1 = count ∨ (r.forEachMatching E filter).1 = [] := by
      refine hcond.imp (fun hpos => max_eq_left (by omega)) fun hnone => ?_
      rw [forEachMatching_eq]
      exact List.filter_eq_nil_iff.mpr fun e he => by simp [hnone e he]
    refine ⟨?_, ?_, ?_, ?_, ?_, ?_, fun hring s before after => r.contextBySeqUsize_eq hring s before⟩
    · rw [recent_oldest]
      rcases hmax with h | h <;> simp [h]
    · rw [recent_newest]
      rcases hmax with h | h <;> simp [h]
    · intro t
      rw [forEachMatching_none]
      exact hwf.logsByTraceId_eq t
    · intro a b
      rw [forEachMatching_none]
      exact hwf.rangeWithFloor_eq a b
    · intro pre e post before after hsplit
      rw [forEachMatching_none] at hsplit
      exact hwf.contextBySeq_eq hsplit before after
    · intro s before after
      rw [forEachMatching_none]
      exact hwf.contextBySeq_eq_nil s before after

/-- A record with a level and a trace. -/
def traced (seq : ℕ) (level : Level) (traceId : Option ℕ) : LogEntry := { LogEntry.blank seq with level, traceId }

/-- A ring of four after five records, two of them late: two traces, and an
error among each. -/
def lateRing : InMemoryStore :=
  (new 4 four_le_u64Max).run
    [.append (traced 5 .info (some 7)), .append (traced 9 .error (some 7)),
      .insertSorted [traced 3 .error (some 8), traced 6 .info (some 8)], .append (traced 10 .error none)]

theorem reached_run {r : InMemoryStore} (h : r.Reached) : ∀ ops : List RingOp, (r.run ops).Reached
  | [] => h
  | op :: ops => reached_run (h.write op) ops

/-- The errors of that ring, two asked for. -/
theorem one_story_late :
    let errors : Option ParsedFilter := some (.qualifiers [.levelFilter .gte .error])
    lateRing.entries.map LogEntry.seq = [5, 6, 9, 10] ∧
      OneStory .ascii lateRing errors 2 ∧
      (lateRing.recent .ascii 2 errors false).map LogEntry.seq = [10, 9] ∧
      (lateRing.logsByTraceId 8).map LogEntry.seq = [6] ∧ (lateRing.contextBySeq 6 1 1).map LogEntry.seq = [5, 6, 9] :=
  ⟨by decide +kernel, (one_story_iff .ascii (reached_run (.new 4 _) _) _ 2).mpr (.inl (by decide)), by decide +kernel,
    by decide +kernel, by decide +kernel⟩

/-- A `usize` sum past the largest of them loses the window. -/
example : lateRing.contextBySeqUsize 6 0 u64Max = some [] ∧ (lateRing.contextBySeq 6 0 u64Max).length = 3 := by
  decide +kernel

/-- A query for no record answers with one. -/
theorem recent_zero_takes_one :
    let r := (new 1 (by decide)).apply (.append (.blank 5))
    r.Reached ∧ ¬ OneStory .ascii r none 0 := by
  refine ⟨.write _ (.new 1 _), fun h => ?_⟩
  have := h.oldest
  revert this
  decide

end InMemoryStore
end Logmon
