/-
# Timestamps through ingest

The two timestamps of an OTLP span are any 64-bit numbers of nanoseconds. They
are delivered as they are, by either transport; `classify` subtracts them only
when both fit an `i64` and neither is zero. What a collector retains are spans
whose start is not negative and not behind their end, and clipping keeps an
interval so. Hence every `i64` difference taken of retained spans lies between
`-i64Max` and `i64Max`: the durations, the lengths in `self_time`, and what
`union_len` subtracts of them, of clipped children and of a trace's spans
(`timestamps_survive`).

Key definitions: `Delivered`, `FitsI64`, `childDiffs`, `viewDiffs`.
Key theorems: `Delivered.times`, `classify_eq`, `viewDiffs_bounds`,
`timestamps_survive`.
-/
import Logmon.Collector.Breakdown
import Logmon.Collector.Live
import Logmon.Collector.PathTime
import Logmon.Otlp.Http

namespace Logmon

open Lib

/-! ### Delivery -/

section
variable {D : Type} {W : WireEnv D}

/-- How OTLP/JSON writes a 64-bit number in a field: its digits as a string, a
number, or, of zero, nothing. -/
def NanosIn (j : Json D) (field : String) (n : UInt64) : Prop :=
  j.get field = some (.string (toString n.toNat)) ∨ j.get field = some (.int n.toNat) ∨ j.get field = none ∧ n = 0

/-- `x` is what a receiver makes of a span with these timestamps. -/
inductive Delivered (W : WireEnv D) (start stop : UInt64) (x : ReceivedSpan D) : Prop
  | grpc (now : ℤ) (service : String) (span : OtlpSpan D) (hstart : span.startTimeUnixNano = start)
      (hstop : span.endTimeUnixNano = stop) (h : grpcSpan W now service span = some x)
  | http (now : ℤ) (service : String) (span : Json D) (hstart : NanosIn span "startTimeUnixNano" start)
      (hstop : NanosIn span "endTimeUnixNano" stop) (h : parseJsonSpan W now service span = some x)

theorem nanosField_eq {j : Json D} {field : String} {n : UInt64} (h : NanosIn j field n) : nanosField field j = n := by
  have hlt := n.toNat_lt
  unfold nanosField
  rcases h with h | h | ⟨h, rfl⟩
  · have hparse : parseU64 (toString n.toNat) = some n := by
      unfold parseU64
      rw [parseNat?_toString (by unfold u64Max; omega), Option.map_some, UInt64.ofNat_toNat]
    rw [h]
    show (parseU64 (toString n.toNat)).getD 0 = n
    rw [hparse, Option.getD_some]
  · have hparse : (if 0 ≤ (n.toNat : ℤ) ∧ (n.toNat : ℤ) < 2 ^ 64 then some (UInt64.ofNat (n.toNat : ℤ).toNat) else none) =
        some n := by
      rw [if_pos ⟨by omega, by omega⟩, Int.toNat_natCast, UInt64.ofNat_toNat]
    rw [h, Option.map_some, Option.getD_some]
    unfold parseNanos Json.asStr Json.asU64
    simp only
    rw [hparse, Option.getD_some]
  · rw [h]
    rfl

theorem times_of_grpcSpan {now : ℤ} {service : String} {span : OtlpSpan D} {x : ReceivedSpan D}
    (h : grpcSpan W now service span = some x) :
    x.startTime = nanosToDatetime now span.startTimeUnixNano ∧ x.endTime = nanosToDatetime now span.endTimeUnixNano := by
  unfold grpcSpan at h
  split at h
  · cases h
  split at h
  · cases h
  split at h
  · cases h
  · obtain rfl := Option.some.inj h
    exact ⟨rfl, rfl⟩

theorem times_of_parseJsonSpan {now : ℤ} {service : String} {span : Json D} {x : ReceivedSpan D}
    (h : parseJsonSpan W now service span = some x) :
    x.startTime = nanosToDatetime now (nanosField "startTimeUnixNano" span) ∧
      x.endTime = nanosToDatetime now (nanosField "endTimeUnixNano" span) := by
  unfold parseJsonSpan at h
  split at h
  · cases h
  split at h
  · cases h
  dsimp only at h
  split at h
  · cases h
  · obtain rfl := Option.some.inj h
    exact ⟨rfl, rfl⟩

/-- **The instants sent are the instants delivered.** -/
theorem Delivered.times {start stop : UInt64} {x : ReceivedSpan D} (h : Delivered W start stop x) :
    x.startTime = start.toNat ∧ x.endTime = stop.toNat := by
  cases h with
  | grpc now service span hstart hstop h =>
    obtain ⟨hs, he⟩ := times_of_grpcSpan h
    rw [hs, he, hstart, hstop, nanosToDatetime_eq, nanosToDatetime_eq]
    exact ⟨rfl, rfl⟩
  | http now service span hstart hstop h =>
    obtain ⟨hs, he⟩ := times_of_parseJsonSpan h
    rw [hs, he, nanosField_eq hstart, nanosField_eq hstop, nanosToDatetime_eq, nanosToDatetime_eq]
    exact ⟨rfl, rfl⟩

end

/-! ### Classification -/

def FitsI64 (n : ℤ) : Prop := i64Min ≤ n ∧ n ≤ i64Max

/-- A subtraction that does not overflow is that of the integers. -/
theorem i64Sub_eq {a b : ℤ} (h : FitsI64 (a - b)) : i64Sub a b = a - b := by
  obtain ⟨hlo, hhi⟩ := h
  unfold i64Max at hhi
  unfold i64Sub
  unfold i64Min at hlo ⊢
  omega

/-- A duration of this many nanoseconds. -/
def SpanDuration.ofDifference (d : ℤ) : SpanDuration := if d < 0 then .negative d else .ok d

theorem fitsI64_sub {a b : ℤ} (ha : 0 ≤ a) (ha' : a ≤ i64Max) (hb : 0 ≤ b) (hb' : b ≤ i64Max) : FitsI64 (a - b) := by
  unfold FitsI64 i64Min
  unfold i64Max at ha' hb' ⊢
  omega

/-- The timestamps that are subtracted. -/
def Subtracted (start stop : ℤ) : Prop := start ≠ 0 ∧ stop ≠ 0 ∧ start ≤ i64Max ∧ stop ≤ i64Max

instance (start stop : ℤ) : Decidable (Subtracted start stop) := inferInstanceAs (Decidable (_ ∧ _))

/-- Timestamps that are not negative are subtracted exactly, or not at all. -/
theorem classify_eq {span : SpanEntry} (hs : 0 ≤ span.startTime) (he : 0 ≤ span.endTime) :
    classify span =
      if Subtracted span.startTime span.endTime then .ofDifference (span.endTime - span.startTime) else .malformed := by
  have hnanos : ∀ {t : ℤ}, 0 ≤ t → timestampNanos t = if t ≤ i64Max then some t else none := by
    intro t ht
    unfold timestampNanos i64Min
    exact if_congr ⟨fun h => h.2, fun h => ⟨by omega, h⟩⟩ rfl rfl
  unfold classify
  rw [hnanos hs, hnanos he]
  by_cases hsmax : span.startTime ≤ i64Max
  · by_cases hemax : span.endTime ≤ i64Max
    · rw [if_pos hsmax, if_pos hemax]
      simp only
      by_cases hzero : span.startTime = 0 ∨ span.endTime = 0
      · have hsub : ¬ Subtracted span.startTime span.endTime := fun h => hzero.elim h.1 h.2.1
        rw [if_pos hzero, if_neg hsub]
      · have hsub : Subtracted span.startTime span.endTime :=
          ⟨fun h => hzero (.inl h), fun h => hzero (.inr h), hsmax, hemax⟩
        rw [if_neg hzero, if_pos hsub, i64Sub_eq (fitsI64_sub he hemax hs hsmax)]
        rfl
    · have hsub : ¬ Subtracted span.startTime span.endTime := fun h => hemax h.2.2.2
      rw [if_pos hsmax, if_neg hemax, if_neg hsub]
  · have hsub : ¬ Subtracted span.startTime span.endTime := fun h => hsmax h.2.2.1
    rw [if_neg hsmax, if_neg hsub]

/-- What is retained is not negative, and not behind its end. -/
theorem within_of_wellFormed {span : SpanEntry} (hs : 0 ≤ span.startTime) (he : 0 ≤ span.endTime)
    (h : span.wellFormed = true) : Within 0 i64Max (span.startTime, span.endTime) := by
  unfold SpanEntry.wellFormed at h
  rw [classify_eq hs he] at h
  by_cases hsub : Subtracted span.startTime span.endTime
  · rw [if_pos hsub] at h
    unfold SpanDuration.ofDifference at h
    by_cases hneg : span.endTime - span.startTime < 0
    · rw [if_pos hneg] at h
      cases h
    · exact ⟨hs, by simp only; omega, hsub.2.2.2⟩
  · rw [if_neg hsub] at h
    cases h

/-! ### The differences of the projections -/

/-- What `self_time` subtracts for the child at `i` of the span at `p`. -/
def childDiffs (intervals : List (ℤ × ℤ)) (i p : ℕ) : List ℤ :=
  let child := intervals.getD i (0, 0)
  match clipInterval child (intervals.getD p (0, 0)) with
  | some c => [intervalLen child, intervalLen c, intervalLen child - intervalLen c]
  | none => [intervalLen child]

/-- What `union_len` subtracts of what is filed under each index. -/
def childUnionDiffs (children : FMap ℕ (List (ℤ × ℤ))) (n : ℕ) : List ℤ :=
  (List.range n).flatMap fun p => unionDiffs ((children.get? p).getD [])

/-- Every difference of two `i64` that is taken of the retained records:
`sampled_view` with `self_time`, `path_aggregates` and `trace_rows`. -/
def viewDiffs (rs : List SampleRecord) : List ℤ :=
  let cols := Columns.of true rs
  let sorted := sortIntervals cols.intervals
  let scan := scanChildren sorted cols.parents cols.traces cols.byId
  let paths := pathChildren cols.intervals cols.parents cols.traces cols.byId
  cols.durations ++ unionDiffs cols.intervals ++ (takenPairs rs).flatMap (fun e => childDiffs sorted e.1 e.2) ++
    childUnionDiffs scan.children rs.length ++ childUnionDiffs paths rs.length ++
    rs.flatMap fun r => unionDiffs
      (((FMap.collectBy SampleRecord.traceId (fun q => (q.startNs, q.endNs)) rs).get? r.traceId).getD [])

variable {lo hi : ℤ}

theorem within_clip {a b c : ℤ × ℤ} (ha : Within lo hi a) (hb : Within lo hi b) (h : clipInterval a b = some c) :
    Within lo hi c := by
  obtain ⟨halo, -, hahi⟩ := ha
  obtain ⟨hblo, -, hbhi⟩ := hb
  unfold clipInterval at h
  split at h
  · obtain rfl := Option.some.inj h
    exact ⟨le_max_of_le_left halo, by simp only; omega, min_le_of_left_le hahi⟩
  · cases h

theorem within_getD {l : List (ℤ × ℤ)} (hhi : 0 ≤ hi) (h : ∀ i ∈ l, Within 0 hi i) (n : ℕ) :
    Within 0 hi (l.getD n (0, 0)) := by
  rw [List.getD_eq_getElem?_getD]
  cases hn : l[n]? with
  | none => exact ⟨le_rfl, le_rfl, hhi⟩
  | some i => exact h i (List.mem_of_getElem? hn)

/-- What pairs file under a span are intervals clipped from those read. -/
theorem within_pairs {I : List (ℤ × ℤ)} (hhi : 0 ≤ hi) (hI : ∀ i ∈ I, Within 0 hi i) (es : List (ℕ × ℕ)) {p : ℕ}
    {c : ℤ × ℤ} (hc : c ∈ ((es.foldl (fun children e => pathChild I children e.1 e.2) ∅).get? p).getD []) :
    Within 0 hi c := by
  rw [@indexes_pairs I (fun i => I.getD i (0, 0)) (fun _ => rfl) es p, getD_listed] at hc
  obtain ⟨e, -, hclip⟩ := List.mem_filterMap.mp hc
  exact within_clip (within_getD hhi hI e.1) (within_getD hhi hI e.2) hclip

theorem childUnionDiffs_bounds {children : FMap ℕ (List (ℤ × ℤ))} {n : ℕ}
    (h : ∀ p, ∀ c ∈ (children.get? p).getD [], Within 0 hi c) : ∀ d ∈ childUnionDiffs children n, -hi ≤ d ∧ d ≤ hi := by
  intro d hd
  obtain ⟨p, -, hd⟩ := List.mem_flatMap.mp hd
  have := unionDiffs_bounds (h p) d hd
  omega

theorem childDiffs_bounds {I : List (ℤ × ℤ)} (hhi : 0 ≤ hi) (hI : ∀ i ∈ I, Within 0 hi i) (i p : ℕ) :
    ∀ d ∈ childDiffs I i p, -hi ≤ d ∧ d ≤ hi := by
  have hlen : ∀ {c : ℤ × ℤ}, Within 0 hi c → 0 ≤ intervalLen c ∧ intervalLen c ≤ hi := by
    rintro c ⟨hlo, hle, hhi⟩
    unfold intervalLen
    omega
  have hchild := hlen (within_getD hhi hI i)
  unfold childDiffs
  dsimp only
  cases hclip : clipInterval (I.getD i (0, 0)) (I.getD p (0, 0)) with
  | none =>
    intro d hd
    obtain rfl := List.mem_singleton.mp hd
    omega
  | some c =>
    have hc := hlen (within_clip (within_getD hhi hI i) (within_getD hhi hI p) hclip)
    intro d hd
    simp only [List.mem_cons, List.not_mem_nil, or_false] at hd
    omega

/-- **Of retained spans, no difference leaves their span.** -/
theorem viewDiffs_bounds {rs : List SampleRecord} (hhi : 0 ≤ hi) (h : ∀ r ∈ rs, Within 0 hi r.interval) :
    ∀ d ∈ viewDiffs rs, -hi ≤ d ∧ d ≤ hi := by
  obtain ⟨hdurations, hintervals, -⟩ := columns_of rs
  have hI : ∀ i ∈ (Columns.of true rs).intervals, Within 0 hi i := by
    rw [hintervals]
    exact List.forall_mem_map.mpr h
  have hsorted : ∀ i ∈ sortIntervals (Columns.of true rs).intervals, Within 0 hi i :=
    fun i hi => hI i ((sortIntervals_perm _).mem_iff.mp hi)
  intro d hd
  unfold viewDiffs at hd
  simp only [List.mem_append] at hd
  rcases hd with ((((hd | hd) | hd) | hd) | hd) | hd
  · rw [hdurations] at hd
    obtain ⟨r, hr, rfl⟩ := List.mem_map.mp hd
    obtain ⟨hlo, hle, hhi⟩ := h r hr
    unfold intervalLen
    omega
  · have := unionDiffs_bounds hI d hd
    omega
  · obtain ⟨e, -, hd⟩ := List.mem_flatMap.mp hd
    exact childDiffs_bounds hhi hsorted e.1 e.2 d hd
  · rw [scanChildren_taken, children_foldl] at hd
    exact childUnionDiffs_bounds (fun p c hc => within_pairs hhi hsorted (takenPairs rs) hc) d hd
  · rw [pathChildren_eq] at hd
    exact childUnionDiffs_bounds (fun p c hc => within_pairs hhi hI (pathPairs rs) hc) d hd
  · obtain ⟨r, -, hd⟩ := List.mem_flatMap.mp hd
    rw [FMap.getD_collectBy] at hd
    have hof : ∀ i ∈ (rs.filter fun q => q.traceId = r.traceId).map fun q => (q.startNs, q.endNs), Within 0 hi i :=
      List.forall_mem_map.mpr fun q hq => h q (List.mem_of_mem_filter hq)
    have := unionDiffs_bounds hof d hd
    omega

/-! ### From the wire to the views -/

theorem times_atLevel (level : SampleLevel) (r : SampleRecord) :
    (r.atLevel level).startNs = r.startNs ∧ (r.atLevel level).endNs = r.endNs := by
  unfold SampleRecord.atLevel
  split <;> exact ⟨rfl, rfl⟩

/-- What a window retains of a span are its own timestamps. -/
theorem retained_times {S : Type} {v : LiveView S} {defn : CollectorDef} {spans : List SpanEntry}
    (h : v.KeepsFirst defn spans) {r : SampleRecord} (hr : r ∈ v.samples.records) :
    ∃ s ∈ spans, s.wellFormed = true ∧ r.startNs = s.startTime ∧ r.endNs = s.endTime := by
  obtain ⟨kept, hkept, hrecords, -⟩ := h
  rw [hrecords] at hr
  obtain ⟨s, hs, rfl⟩ := List.mem_map.mp hr
  obtain ⟨hspan, hwf⟩ := List.mem_filter.mp (hkept.subset hs)
  obtain ⟨hstart, hend⟩ := times_atLevel defn.level (LiveWindow.recordOf v.names s)
  exact ⟨s, hspan, hwf, hstart, hend⟩

/-- **Timestamps survive ingest.** Whatever 64-bit timestamps a span has, either
transport delivers those instants, and `classify` returns their exact
difference, subtracting without overflow, or calls the span malformed. In any
run of a collector over such spans the records retained have the timestamps of
their spans, and no difference taken of them overflows. -/
theorem timestamps_survive {D : Type} (W : WireEnv D) :
    (∀ (start stop : UInt64) (x : ReceivedSpan D), Delivered W start stop x →
      x.startTime = start.toNat ∧ x.endTime = stop.toNat ∧
      classify (x.entry W) =
        (if start ≠ 0 ∧ stop ≠ 0 ∧ (start.toNat : ℤ) ≤ i64Max ∧ (stop.toNat : ℤ) ≤ i64Max then
          (if (stop.toNat : ℤ) - start.toNat < 0 then .negative ((stop.toNat : ℤ) - start.toNat)
            else .ok ((stop.toNat : ℤ) - start.toNat))
        else .malformed) ∧
      ∀ a ∈ timestampNanos x.startTime, ∀ b ∈ timestampNanos x.endTime, FitsI64 (b - a)) ∧
    ∀ (S : Type) (ops : SketchOps S) (defn : CollectorDef) (now : ℤ) (acts : List CollectorAct),
      (∀ s ∈ CollectorAct.ingested acts, ∃ start stop x, Delivered W start stop x ∧
        s.startTime = x.startTime ∧ s.endTime = x.endTime) →
      ∀ w ∈ ((LiveRun.start ops defn now).run ops acts).windows,
        (∀ r ∈ w.2.samples.records, ∃ s ∈ w.1, r.startNs = s.startTime ∧ r.endNs = s.endTime) ∧
        ∀ cutNs, ∀ d ∈ viewDiffs (retained w.2.samples cutNs), FitsI64 d := by
  refine ⟨fun start stop x h => ?_, fun S ops defn now acts hacts w hw => ?_⟩
  · obtain ⟨hstart, hstop⟩ := h.times
    have hzero : ∀ n : UInt64, n ≠ 0 ↔ (n.toNat : ℤ) ≠ 0 := fun n => by
      rw [Ne, Ne, Int.natCast_eq_zero, ← UInt64.toNat_inj]
      rfl
    refine ⟨hstart, hstop, ?_, fun a ha b hb => ?_⟩
    · rw [@classify_eq (x.entry W) (by show 0 ≤ x.startTime; omega) (by show 0 ≤ x.endTime; omega)]
      show (if Subtracted x.startTime x.endTime then SpanDuration.ofDifference (x.endTime - x.startTime) else _) = _
      rw [hstart, hstop]
      exact if_congr (and_congr (hzero start).symm (and_congr_left fun _ => (hzero stop).symm)) rfl rfl
    · have hnanos : ∀ {t a : ℤ}, 0 ≤ t → a ∈ timestampNanos t → 0 ≤ a ∧ a ≤ i64Max := by
        intro t a ht ha
        unfold timestampNanos at ha
        split at ha
        · rename_i hfits
          obtain rfl := Option.some.inj ha
          exact ⟨ht, hfits.2⟩
        · cases ha
      obtain ⟨halo, hahi⟩ := hnanos (by omega) ha
      obtain ⟨hblo, hbhi⟩ := hnanos (by omega) hb
      exact fitsI64_sub hblo hbhi halo hahi
  · obtain ⟨hspans, -, hkeeps⟩ := windows_reconcile ops defn now acts
    have hkept := hkeeps w hw
    refine ⟨fun r hr => ?_, fun cutNs d hd => ?_⟩
    · obtain ⟨s, hs, -, htimes⟩ := retained_times hkept hr
      exact ⟨s, hs, htimes⟩
    · have hwithin : ∀ r ∈ retained w.2.samples cutNs, Within 0 i64Max r.interval := by
        intro r hr
        obtain ⟨s, hs, hwf, hstart, hend⟩ := retained_times hkept (List.mem_of_mem_filter hr)
        have hmem : s ∈ CollectorAct.ingested acts := by
          rw [← hspans]
          exact List.mem_flatten.mpr ⟨w.1, List.mem_map_of_mem hw, hs⟩
        obtain ⟨start, stop, x, hx, hxs, hxe⟩ := hacts s hmem
        obtain ⟨htstart, htstop⟩ := hx.times
        have h := @within_of_wellFormed s (by omega) (by omega) hwf
        rw [← hstart, ← hend] at h
        exact h
      obtain ⟨hlo, hhi⟩ := viewDiffs_bounds (by decide) hwithin d hd
      unfold i64Max at hlo hhi
      exact ⟨by unfold i64Min; omega, hhi⟩

/-- The language's floating-point numbers; no JSON is rendered. -/
def floatEnv : WireEnv Float where
  text := toString
  ofInt := Float.ofInt
  durationMs start stop := (stop.toFloat - start.toFloat) / 1000000
  bits d := d.toBits.toNat
  render _ := ""

/-- A span with these timestamps and little else. -/
def clockedSpan (start stop : UInt64) : OtlpSpan Float where
  traceId := List.replicate 16 1
  spanId := List.replicate 8 1
  parentSpanId := []
  name := "parse"
  kind := 1
  startTimeUnixNano := start
  endTimeUnixNano := stop
  attributes := []
  events := []
  status := none

theorem delivered_clockedSpan (start stop : UInt64) : ∃ x, Delivered floatEnv start stop x :=
  ⟨_, .grpc 0 "api" (clockedSpan start stop) rfl rfl rfl⟩

/-- A span that ends before it starts, and one that is retained. -/
theorem timestamps_survive_skewed :
    (∃ x, Delivered floatEnv 20 5 x ∧ classify (x.entry floatEnv) = .negative (-15)) ∧
    ∃ (s : SpanEntry) (ops : SketchOps (List ℤ)) (defn : CollectorDef), s.startTime = 5 ∧ s.endTime = 20 ∧
      ∀ w ∈ ((LiveRun.start ops defn 0).run ops [.ingest s]).windows, ∀ d ∈ viewDiffs (retained w.2.samples none),
        FitsI64 d := by
  obtain ⟨x, hx⟩ := delivered_clockedSpan 20 5
  obtain ⟨y, hy⟩ := delivered_clockedSpan 5 20
  obtain ⟨-, -, hnegative, -⟩ := (timestamps_survive floatEnv).1 20 5 x hx
  obtain ⟨hstart, hend, -⟩ := (timestamps_survive floatEnv).1 5 20 y hy
  refine ⟨⟨x, hx, hnegative.trans (by decide)⟩, y.entry floatEnv, ⟨[], fun s ns => s ++ [ns]⟩,
    ⟨"c", "", .all, .tree, [], 65536, none, none⟩, hstart, hend, fun w hw => ?_⟩
  have hdelivered : ∀ s ∈ CollectorAct.ingested [.ingest (y.entry floatEnv)], ∃ start stop x,
      Delivered floatEnv start stop x ∧ s.startTime = x.startTime ∧ s.endTime = x.endTime := by
    intro s hs
    obtain rfl := List.mem_singleton.mp hs
    exact ⟨5, 20, y, hy, rfl, rfl⟩
  exact ((timestamps_survive floatEnv).2 _ _ _ 0 _ hdelivered w hw).2 none

end Logmon
