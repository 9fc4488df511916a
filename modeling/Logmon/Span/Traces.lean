/-
# Reading the span ring by trace

`span/store.rs`: a trace's spans are found by binary search for the seqs the
index lists, and sorted by start time; the recent traces are those with the
newest matching spans, each summarised over all its held spans.

Key definitions: `SpanRing.getTrace`, `SpanRing.recentTraces`,
`TraceSummary.of`, `Newest`, `SpanRun.Refines`.
Key theorems: `SpanRun.Inv.traceSpans`, `newest_take`, `span_ring_refines`.
-/
import Logmon.Filter.SpanMatcher
import Logmon.Lib.Search
import Logmon.Span.Ring

namespace Logmon

open Lib

/-! ### The readers -/

def SpanEntry.hasError (s : SpanEntry) : Bool :=
  match s.status with
  | .error _ => true
  | _ => false

/-- A trace in a list. The total duration is its `f64` bits. -/
structure TraceSummary where
  traceId : ℕ
  rootSpanName : String
  serviceName : String
  startTime : ℤ
  totalDurationBits : ℕ
  spanCount : ℕ
  hasErrors : Bool
  linkedLogCount : ℕ
  deriving DecidableEq

/-- The summary of a trace's spans, in order of start time; `none` where
indexing the first of no spans panics. -/
def TraceSummary.of (traceId : ℕ) (spans : List SpanEntry) (linkedLogCount : ℕ → ℕ) : Option TraceSummary :=
  match spans with
  | [] => none
  | first :: _ =>
    let root := spans.find? fun s => s.parentSpanId.isNone
    some
      { traceId
        rootSpanName := (root.map SpanEntry.name).getD "[no root]"
        serviceName := (root.map SpanEntry.serviceName).getD "unknown"
        startTime := (root.map SpanEntry.startTime).getD first.startTime
        totalDurationBits := (root.map SpanEntry.durationBits).getD 0
        spanCount := spans.length % 2 ^ 32
        hasErrors := spans.any SpanEntry.hasError
        linkedLogCount := linkedLogCount traceId }

namespace SpanRing

/-- Where the span with a seq is held. -/
def position (r : SpanRing) (seq : ℕ) : Option ℕ := binarySearch SpanEntry.seq r.buffer seq

/-- One trace's held spans, by start time. -/
def traceSpans (r : SpanRing) (traceId : ℕ) : List SpanEntry :=
  match r.traceIndex.get? traceId with
  | none => []
  | some seqs =>
    (seqs.filterMap fun seq => (r.position seq).bind fun i => r.buffer[i]?).insertionSort fun a b =>
      a.startTime ≤ b.startTime

def getTrace (r : SpanRing) (traceId : ℕ) : List SpanEntry := r.traceSpans traceId

/-- The held spans a filter, if there is one, selects. -/
def matching (E : TextEnv) (r : SpanRing) (filter : Option ParsedFilter) : List SpanEntry :=
  r.buffer.filter fun span => (filter.map fun f => matchesSpan E f span).getD true

/-- One span into the highest seqs of the traces. -/
def raise (m : FMap ℕ ℕ) (span : SpanEntry) : FMap ℕ ℕ :=
  let entry := (m.get? span.traceId).getD 0
  m.insert span.traceId (if span.seq > entry then span.seq else entry)

def recentTraces (E : TextEnv) (order : MapOrder) (r : SpanRing) (count : ℕ) (filter : Option ParsedFilter)
    (linkedLogCount : ℕ → ℕ) : Option (List TraceSummary) :=
  let traceMaxSeq := (r.matching E filter).foldl raise ∅
  let traces := ((order.rows traceMaxSeq).insertionSort fun a b => b.2 ≤ a.2).take count
  traces.mapM fun x => TraceSummary.of x.1 (r.traceSpans x.1) linkedLogCount

end SpanRing

/-! ### A trace's spans -/

namespace SpanRun

variable {s : SpanRun}

/-- Each seq of the index is found where it is held. -/
theorem Inv.find (h : s.Inv) {x : SpanEntry} (hx : x ∈ s.ring.buffer) :
    ((s.ring.position x.seq).bind fun i => s.ring.buffer[i]?) = some x := by
  obtain ⟨i, hi⟩ := List.mem_iff_getElem?.mp hx
  have hfound : s.ring.position x.seq = some i := h.asc_buffer.binarySearch_eq_some_iff.mpr ⟨x, hi, rfl⟩
  rw [hfound]
  exact hi

/-- **A trace is its held spans**, by start time, then by seq. -/
theorem Inv.traceSpans (h : s.Inv) (t : ℕ) :
    (s.ring.traceSpans t).Perm (s.ring.buffer.filter fun x => x.traceId = t) ∧
      StablySorted SpanEntry.startTime SpanEntry.seq (s.ring.traceSpans t) := by
  have hasc : Asc SpanEntry.seq (s.ring.buffer.filter fun x => x.traceId = t) := h.asc_buffer.filter _
  have hfound : (seqsOf s.ring.buffer t).filterMap (fun seq => (s.ring.position seq).bind fun i => s.ring.buffer[i]?) =
      s.ring.buffer.filter fun x => x.traceId = t := by
    rw [seqsOf, List.filterMap_map]
    refine (List.filterMap_congr fun x hx => ?_).trans List.filterMap_some
    exact h.find (List.mem_filter.mp hx).1
  unfold SpanRing.traceSpans
  rw [h.index t]
  by_cases hnil : seqsOf s.ring.buffer t = []
  · have hnone : (s.ring.buffer.filter fun x => x.traceId = t) = [] := List.map_eq_nil_iff.mp hnil
    rw [hnil, listed_nil, hnone]
    exact ⟨List.Perm.refl _, List.Pairwise.nil⟩
  · rw [listed_of_ne hnil]
    dsimp only
    rw [hfound]
    exact ⟨List.perm_insertionSort _ _, hasc.stablySorted_insertionSort⟩

end SpanRun

/-! ### The newest traces -/

/-- `q` is the highest seq of trace `t` in the list. -/
def IsTop (l : List SpanEntry) (t q : ℕ) : Prop :=
  (∃ x ∈ l, x.traceId = t ∧ x.seq = q) ∧ ∀ x ∈ l, x.traceId = t → x.seq ≤ q

/-- The `n` traces with the highest seqs in the list, or all of fewer, each
with its highest, descending. -/
structure Newest (l : List SpanEntry) (n : ℕ) (tops : List (ℕ × ℕ)) : Prop where
  top : ∀ x ∈ tops, IsTop l x.1 x.2
  descending : tops.Pairwise fun a b => b.2 < a.2
  within : tops.length ≤ n
  rest : ∀ t q, IsTop l t q → (t, q) ∈ tops ∨ tops.length = n ∧ ∀ x ∈ tops, q < x.2

theorem get?_foldl_raise {l : List SpanEntry} (h : Asc SpanEntry.seq l) (t : ℕ) :
    (l.foldl SpanRing.raise ∅).get? t = ((l.filter fun x => x.traceId = t).getLast?).map SpanEntry.seq := by
  induction l using List.reverseRecOn with
  | nil => rfl
  | append_singleton l x ih =>
    obtain ⟨hl, -, hlt⟩ := asc_append.mp h
    have ih := ih hl
    rw [List.foldl_append, List.foldl_cons, List.foldl_nil, SpanRing.raise, FMap.get?_insert, List.filter_append]
    by_cases ht : t = x.traceId
    · subst ht
      have hseq : (if x.seq > ((l.foldl SpanRing.raise ∅).get? x.traceId).getD 0 then x.seq
          else ((l.foldl SpanRing.raise ∅).get? x.traceId).getD 0) = x.seq := by
        rw [ih]
        cases hlast : (l.filter fun y => y.traceId = x.traceId).getLast? with
        | none =>
          rw [Option.map_none, Option.getD_none]
          split_ifs <;> omega
        | some y =>
          have := hlt y (List.mem_filter.mp (List.mem_of_getLast? hlast)).1 x (List.mem_singleton_self x)
          rw [Option.map_some, Option.getD_some, if_pos this]
      rw [if_pos rfl, hseq]
      simp
    · have hne : ¬ x.traceId = t := fun he => ht he.symm
      rw [if_neg ht, ih]
      simp [hne]

theorem isTop_iff {l : List SpanEntry} (h : Asc SpanEntry.seq l) {t q : ℕ} :
    (t, q) ∈ (l.foldl SpanRing.raise ∅).entries ↔ IsTop l t q := by
  rw [FMap.mem_iff, get?_foldl_raise h t]
  have hf : Asc SpanEntry.seq (l.filter fun x => x.traceId = t) := h.filter _
  constructor
  · intro hlast
    obtain ⟨x, hx, rfl⟩ := Option.map_eq_some_iff.mp hlast
    have hxl := List.mem_filter.mp (List.mem_of_getLast? hx)
    refine ⟨⟨x, hxl.1, by simpa using hxl.2, rfl⟩, fun y hy hyt => ?_⟩
    obtain ⟨before, hbefore⟩ := List.getLast?_eq_some_iff.mp hx
    have hyf : y ∈ before ++ [x] := hbefore ▸ List.mem_filter.mpr ⟨hy, by simpa using hyt⟩
    rw [hbefore] at hf
    rcases List.mem_append.mp hyf with hyb | hyx
    · exact Nat.le_of_lt ((asc_append.mp hf).2.2 y hyb x (List.mem_singleton_self x))
    · rw [List.mem_singleton.mp hyx]
  · rintro ⟨⟨x, hx, hxt, rfl⟩, htop⟩
    have hxf : x ∈ l.filter fun y => y.traceId = t := List.mem_filter.mpr ⟨hx, by simpa using hxt⟩
    cases hlast : (l.filter fun y => y.traceId = t).getLast? with
    | none =>
      rw [List.getLast?_eq_none_iff.mp hlast] at hxf
      cases hxf
    | some y =>
      have hyl := List.mem_filter.mp (List.mem_of_getLast? hlast)
      obtain ⟨before, hbefore⟩ := List.getLast?_eq_some_iff.mp hlast
      have hle : x.seq ≤ y.seq := by
        rw [hbefore] at hxf hf
        rcases List.mem_append.mp hxf with hxb | hxy
        · exact Nat.le_of_lt ((asc_append.mp hf).2.2 x hxb y (List.mem_singleton_self y))
        · rw [List.mem_singleton.mp hxy]
      have hge := htop y hyl.1 (by simpa using hyl.2)
      rw [Option.map_some, Nat.le_antisymm hge hle]

/-- **Sorted and cut, the highest seqs are the newest traces**, in whatever
order the map is walked. -/
theorem newest_take {l : List SpanEntry} (h : Asc SpanEntry.seq l) (order : MapOrder) (n : ℕ) :
    Newest l n (((order.rows (l.foldl SpanRing.raise ∅)).insertionSort fun a b => b.2 ≤ a.2).take n) := by
  set sorted := (order.rows (l.foldl SpanRing.raise ∅)).insertionSort fun a b => b.2 ≤ a.2 with hsorted
  have hperm : sorted.Perm (l.foldl SpanRing.raise ∅).entries :=
    (List.perm_insertionSort _ _).trans (order.perm _)
  have hmem : ∀ {t q}, (t, q) ∈ sorted ↔ IsTop l t q := fun {t q} => hperm.mem_iff.trans (isTop_iff h)
  have hnodup : sorted.Nodup := hperm.nodup_iff.mpr (List.Nodup.of_map _ (l.foldl SpanRing.raise ∅).nodup)
  have hge : sorted.Pairwise fun a b => b.2 ≤ a.2 := by
    have : Std.Total fun a b : ℕ × ℕ => b.2 ≤ a.2 := ⟨fun a b => Nat.le_total _ _⟩
    have : IsTrans (ℕ × ℕ) fun a b => b.2 ≤ a.2 := ⟨fun _ _ _ hab hbc => Nat.le_trans hbc hab⟩
    exact List.pairwise_insertionSort _ _
  -- two traces never share their highest seq: one span has it
  have hdesc : sorted.Pairwise fun a b => b.2 < a.2 := by
    refine (hge.and hnodup).imp_of_mem fun {a b} ha hb hab => ?_
    refine Nat.lt_of_le_of_ne hab.1 fun heq => hab.2 ?_
    obtain ⟨x, hx, hxt, hxq⟩ := (hmem.mp ha).1
    obtain ⟨y, hy, hyt, hyq⟩ := (hmem.mp hb).1
    have hxy : x = y := h.eq_of_key hx hy (by rw [hxq, hyq, heq])
    exact Prod.ext (by rw [← hxt, ← hyt, hxy]) heq.symm
  refine ⟨fun x hx => hmem.mp (List.mem_of_mem_take hx), hdesc.sublist (List.take_sublist _ _),
    List.length_take_le _ _, fun t q htop => ?_⟩
  have hin := hmem.mpr htop
  rw [← List.take_append_drop n sorted] at hin hdesc
  rcases List.mem_append.mp hin with hin | hin
  · exact .inl hin
  · refine .inr ⟨?_, fun x hx => (List.pairwise_append.mp hdesc).2.2 x hx (t, q) hin⟩
    have hpos := List.length_pos_of_mem hin
    rw [List.length_drop] at hpos
    exact List.length_take_of_le (by omega)

/-! ### The ring against its model -/

namespace SpanRun

variable {s : SpanRun}

/-- Every trace with a held span has a summary. -/
theorem Inv.summary (h : s.Inv) {t : ℕ} (ht : ∃ x ∈ s.ring.buffer, x.traceId = t) (linkedLogCount : ℕ → ℕ) :
    ∃ summary, TraceSummary.of t (s.ring.traceSpans t) linkedLogCount = some summary := by
  obtain ⟨x, hx, hxt⟩ := ht
  have hmem : x ∈ s.ring.traceSpans t :=
    (h.traceSpans t).1.mem_iff.mpr (List.mem_filter.mpr ⟨hx, by simpa using hxt⟩)
  cases hs : s.ring.traceSpans t with
  | nil =>
    rw [hs] at hmem
    cases hmem
  | cons first rest => exact ⟨_, rfl⟩

theorem mapM_eq_some {α β : Type} {f : α → Option β} : ∀ {l : List α}, (∀ x ∈ l, ∃ y, f x = some y) →
    ∃ ys, l.mapM f = some ys ∧ List.Forall₂ (fun x y => f x = some y) l ys
  | [], _ => ⟨[], rfl, List.Forall₂.nil⟩
  | x :: l, h => by
    obtain ⟨y, hy⟩ := h x List.mem_cons_self
    obtain ⟨ys, hys, hall⟩ := mapM_eq_some fun z hz => h z (List.mem_cons_of_mem _ hz)
    exact ⟨y :: ys, by rw [List.mapM_cons, hy, hys]; rfl, List.Forall₂.cons hy hall⟩

/-- One past the highest seq among some spans, 0 for none. -/
def pastHighest (l : List SpanEntry) : ℕ := (l.map fun x => x.seq + 1).foldr max 0

theorem pastHighest_eq {l : List SpanEntry} (h : Asc SpanEntry.seq l) :
    pastHighest l = (l.getLast?.map fun x => x.seq + 1).getD 0 := by
  induction l with
  | nil => rfl
  | cons x l ih =>
    obtain ⟨hx, hl⟩ := asc_cons.mp h
    have hcons : pastHighest (x :: l) = max (x.seq + 1) (pastHighest l) := rfl
    rw [hcons, ih hl, List.getLast?_cons]
    cases hlast : l.getLast? with
    | none => exact Nat.max_eq_left (Nat.zero_le _)
    | some y =>
      have hlt := hx y (List.mem_of_getLast? hlast)
      exact Nat.max_eq_right (show x.seq + 1 ≤ y.seq + 1 by omega)

/-- What left is what was stored and is not held. -/
theorem Inv.gone_eq (h : s.Inv) : s.gone = s.stored.filter fun x => x ∉ s.ring.buffer := by
  have hnodup : (s.gone ++ s.ring.buffer).Nodup := h.stored_eq ▸ h.asc.nodup
  have hdisjoint := List.disjoint_of_nodup_append hnodup
  rw [h.stored_eq, List.filter_append]
  have hkeep : (s.gone.filter fun x => x ∉ s.ring.buffer) = s.gone :=
    List.filter_eq_self.mpr fun x hx => decide_eq_true (hdisjoint hx)
  have hdrop : (s.ring.buffer.filter fun x => x ∉ s.ring.buffer) = [] :=
    List.filter_eq_nil_iff.mpr fun x hx => by simpa using hx
  rw [hkeep, hdrop, List.append_nil]

/-- The ring and its readers, against what was stored. -/
structure Refines (E : TextEnv) (s : SpanRun) : Prop where
  /-- The newest spans since the last clear, as many as there is room for. -/
  held : s.ring.buffer = s.since.drop (s.since.length - s.ring.capacity)
  ascending : Asc SpanEntry.seq s.ring.buffer
  /-- One past the highest seq that was stored and left. -/
  floor : s.ring.lostBelow = min (pastHighest (s.stored.filter fun x => x ∉ s.ring.buffer)) u64Max
  index : ∀ t, s.ring.traceIndex.get? t = listed (seqsOf s.ring.buffer t)
  no_empty : ∀ t seqs, s.ring.traceIndex.get? t = some seqs → seqs ≠ []
  trace : ∀ t, (s.ring.getTrace t).Perm (s.ring.buffer.filter fun x => x.traceId = t) ∧
    StablySorted SpanEntry.startTime SpanEntry.seq (s.ring.getTrace t)
  recent : ∀ order count filter linkedLogCount, ∃ tops summaries,
    Newest (s.ring.matching E filter) count tops ∧
    s.ring.recentTraces E order count filter linkedLogCount = some summaries ∧
    List.Forall₂ (fun x summary => TraceSummary.of x.1 (s.ring.getTrace x.1) linkedLogCount = some summary)
      tops summaries

theorem Inv.refines (h : s.Inv) (E : TextEnv) : s.Refines E where
  held := h.held
  ascending := h.asc_buffer
  floor := by
    have hgone : Asc SpanEntry.seq s.gone := by
      have := h.asc
      rw [h.stored_eq] at this
      exact (asc_append.mp this).1
    rw [← h.gone_eq, pastHighest_eq hgone, h.floor]
    cases s.gone.getLast? with
    | none => rfl
    | some x => rfl
  index := h.index
  no_empty _ _ hl := h.index.ne_nil hl
  trace := h.traceSpans
  recent order count filter linkedLogCount := by
    have hnewest := newest_take (h.asc_buffer.filter _ : Asc SpanEntry.seq (s.ring.matching E filter)) order count
    have hall : ∀ x ∈ ((order.rows ((s.ring.matching E filter).foldl SpanRing.raise ∅)).insertionSort
        fun a b => b.2 ≤ a.2).take count,
        ∃ summary, TraceSummary.of x.1 (s.ring.traceSpans x.1) linkedLogCount = some summary := by
      intro x hx
      obtain ⟨y, hy, hyt, -⟩ := (hnewest.top x hx).1
      exact h.summary ⟨y, (List.mem_filter.mp hy).1, hyt⟩ linkedLogCount
    obtain ⟨summaries, hsome, hsummaries⟩ := mapM_eq_some hall
    exact ⟨_, summaries, hnewest, hsome, hsummaries⟩

end SpanRun

/-- **The span ring refines its model.** For every capacity, every reading of
the shared counter and every interleaving of inserts, clears and seqs other
writers take that the counter has room for, the ring holds the newest spans
since the last clear, and its floor, its index and its readers agree with it. -/
theorem span_ring_refines (E : TextEnv) (capacity initial : ℕ) (acts : List SpanAct)
    (hroom : initial + (acts.map SpanAct.seqs).sum ≤ u64Max) :
    ((SpanRun.start capacity initial).run acts).Refines E :=
  (SpanRun.inv_run (SpanRun.inv_start capacity initial) hroom).refines E

/-- A span of a trace at a time. -/
def tracedSpan (traceId : ℕ) (startTime : ℤ) : SpanEntry :=
  { spanWith "" "" with traceId, startTime }

/-- Three spans of two traces through a ring of two, with a log between. -/
theorem span_ring_refines_two : ((SpanRun.start 2 0).run
    [.insert (tracedSpan 7 30), .advance 1, .insert (tracedSpan 8 20), .insert (tracedSpan 7 10)]).Refines .ascii :=
  span_ring_refines .ascii 2 0 _ (by decide)

/-- A ring of no spans at the top of the counter. -/
def atTheTop : SpanRun := (SpanRun.start 0 (u64Max - 1)).run [.insert (tracedSpan 7 0)]

/-- At the top of the counter: a ring of no spans loses the span with seq
`u64::MAX`, and its floor is not past it; and then the seqs begin again, so a
ring of two holds a span below the one before it. -/
theorem span_ring_at_the_top :
    atTheTop.stored.map SpanEntry.seq = [u64Max] ∧ atTheTop.ring.buffer = [] ∧
    atTheTop.ring.lostBelow ≠ SpanRun.pastHighest (atTheTop.stored.filter fun x => x ∉ atTheTop.ring.buffer) ∧
    ¬ Asc SpanEntry.seq ((SpanRun.start 2 (u64Max - 1)).run
      [.insert (tracedSpan 7 0), .insert (tracedSpan 7 0)]).ring.buffer := by
  refine ⟨by decide, by decide, by decide, fun h => ?_⟩
  have hseqs : (((SpanRun.start 2 (u64Max - 1)).run
      [.insert (tracedSpan 7 0), .insert (tracedSpan 7 0)]).ring.buffer.map SpanEntry.seq) = [u64Max, 0] := by
    decide
  have hasc := h.map_keys
  rw [hseqs] at hasc
  have := (asc_cons.mp hasc).1 0 (List.mem_singleton_self 0)
  simp at this

end Logmon
