/-
# The threshold ring

`collector/threshold.rs`: the rolling window behind a threshold, sixteen
buckets taken over lazily by their epoch, with sums in `u64` that wrap. The
ring is a wheel of `Lib.Wheel` over these sums (`wheel_run`), so what an
evaluation adds up is the window's spans modulo `2 ^ 64`, and it equals them
exactly when they number, and last in nanoseconds, less than that
(`ring_equals_window_iff`).

What a metric makes of the sums is floating-point arithmetic and taken as a
parameter; the transitions it drives are the code's.

Key definitions: `Bucket`, `ThresholdState`, `ThresholdState.record`,
`ThresholdState.sums`, `RingCall`, `windowSpans`, `ReadsWindow`.
Key theorems: `wheel_run`, `sums_run`, `ring_equals_window_iff`.
-/
import Logmon.Collector.Exact
import Logmon.Collector.State
import Logmon.Lib.Wheel

namespace Logmon

open Lib

/-! ### The sums of a bucket -/

/-- `BUCKETS`. -/
def buckets : ℕ := 16

instance : NeZero buckets := ⟨by decide⟩

/-- What a bucket accumulates, each a `u64`. -/
@[ext] structure WindowSums where
  /-- Every span, those without a usable duration included. -/
  count : UInt64
  /-- The spans whose duration went into `totalNs`. -/
  okCount : UInt64
  totalNs : UInt64
  errors : UInt64
  deriving DecidableEq

namespace WindowSums

instance : Zero WindowSums := ⟨⟨0, 0, 0, 0⟩⟩

instance : Add WindowSums :=
  ⟨fun a b => ⟨a.count + b.count, a.okCount + b.okCount, a.totalNs + b.totalNs, a.errors + b.errors⟩⟩

instance : AddCommMonoid WindowSums where
  add_assoc _ _ _ := WindowSums.ext (UInt64.add_assoc _ _ _) (UInt64.add_assoc _ _ _) (UInt64.add_assoc _ _ _)
    (UInt64.add_assoc _ _ _)
  add_comm _ _ := WindowSums.ext (UInt64.add_comm _ _) (UInt64.add_comm _ _) (UInt64.add_comm _ _) (UInt64.add_comm _ _)
  zero_add _ := WindowSums.ext (UInt64.zero_add _) (UInt64.zero_add _) (UInt64.zero_add _) (UInt64.zero_add _)
  add_zero _ := WindowSums.ext (UInt64.add_zero _) (UInt64.add_zero _) (UInt64.add_zero _) (UInt64.add_zero _)
  nsmul := nsmulRec

/-- One span, each counter by its own `fetch_add`. -/
def note (s : WindowSums) (d : SpanDuration) (isError : Bool) : WindowSums where
  count := s.count + 1
  errors := if isError then s.errors + 1 else s.errors
  okCount := match d with
    | .ok _ => s.okCount + 1
    | _ => s.okCount
  totalNs := match d with
    | .ok ns => s.totalNs + UInt64.ofNat (ns % 2 ^ 64).toNat
    | _ => s.totalNs

end WindowSums

structure Bucket extends WindowSums where
  /-- The epoch the bucket stands for. -/
  epoch : ℕ

/-- What an evaluation found: the verdict and the value behind it, in
thousandths. -/
structure RingVerdict where
  breached : Bool
  thousandths : ℕ

/-- `ThresholdState`. -/
structure ThresholdState where
  defn : Threshold
  bucketMs : ℕ
  ring : Fin buckets → Bucket
  head : ℕ
  breached : Bool
  breachedAtEpoch : ℕ
  fires : ℕ
  verdict : Option RingVerdict

/-- The bucket, taken over if it stands for another epoch. -/
def Bucket.claim (b : Bucket) (epoch : ℕ) : Bucket := if b.epoch = epoch then b else ⟨0, epoch⟩

namespace ThresholdState

/-- The bucket width is rounded up, so the window is never narrower than the
one declared. -/
def new (defn : Threshold) : ThresholdState where
  defn := defn
  bucketMs := max ((defn.windowMs + buckets - 1) / buckets) 1
  ring _ := ⟨0, 0⟩
  head := 0
  breached := false
  breachedAtEpoch := 0
  fires := 0
  verdict := none

/-- Negative producer clocks are clamped to zero. -/
def epochOf (s : ThresholdState) (startMs : ℤ) : ℕ := (max startMs 0).toNat / s.bucketMs

/-- The loop of `evaluate`: the live buckets of the window ending at `head`. -/
def sums (s : ThresholdState) (head : ℕ) : WindowSums :=
  (List.finRange buckets).foldl (fun acc i =>
    if (s.ring i).epoch < head - (buckets - 1) ∨ (s.ring i).epoch > head then acc
    else acc + (s.ring i).toWindowSums) 0

variable (judge : Threshold → WindowSums → Option RingVerdict)

/-- `evaluate`; where the metric is undefined the verdict stands. -/
def evaluate (s : ThresholdState) (head : ℕ) : ThresholdState :=
  match judge s.defn (s.sums head) with
  | none => s
  | some v =>
    if v.breached && !s.breached then
      { s with verdict := some v, breached := v.breached, fires := s.fires + 1, breachedAtEpoch := head }
    else { s with verdict := some v, breached := v.breached }

/-- Whether a span's group is watched. -/
def watches (s : ThresholdState) (group : Option String) : Bool :=
  match s.defn.group with
  | none => true
  | some want => group == some want

/-- Record one matched span and re-evaluate. -/
def record (s : ThresholdState) (startMs : ℤ) (d : SpanDuration) (isError : Bool) (group : Option String) :
    ThresholdState :=
  if !s.watches group then s
  else
    let epoch := s.epochOf startMs
    let head := max s.head epoch
    if epoch + buckets ≤ head then { s with head }
    else
      let slot := Bucket.claim (s.ring (Fin.ofNat buckets epoch)) epoch
      let ring := Function.update s.ring (Fin.ofNat buckets epoch) { slot with
        toWindowSums := slot.toWindowSums.note d isError }
      evaluate judge { s with head, ring } head

/-- Discard the rolling window and the verdict reached over it. -/
def clear (s : ThresholdState) : ThresholdState :=
  { s with ring := fun _ => ⟨0, 0⟩, head := 0, breached := false, breachedAtEpoch := 0, fires := 0, verdict := none }

end ThresholdState

/-! ### The window a ring stands for -/

/-- What `record` is told of a span. -/
structure RingSpan where
  startMs : ℤ
  duration : SpanDuration
  isError : Bool
  group : Option String
  /-- A usable duration is not negative. -/
  nonneg : ∀ ns, duration = .ok ns → 0 ≤ ns

theorem nonneg_of_classify {span : SpanEntry} {ns : ℤ} (h : classify span = .ok ns) : 0 ≤ ns := by
  unfold classify at h
  split at h
  · split at h
    · cases h
    · split at h
      · cases h
      · rename_i hneg
        exact SpanDuration.ok.inj h ▸ Int.not_lt.mp hneg
  · cases h

/-- What `ingest` tells `record`: the producer's start in milliseconds, and the
first group key's value where one is wanted. -/
def RingSpan.ofSpan (span : SpanEntry) (group : Option String) : RingSpan where
  startMs := span.startTime / 1000000
  duration := classify span
  isError := Logmon.isError span
  group := group
  nonneg _ := nonneg_of_classify

inductive RingCall
  | record (span : RingSpan)
  | clear

namespace RingCall

variable (judge : Threshold → WindowSums → Option RingVerdict)

def step (s : ThresholdState) : RingCall → ThresholdState
  | record x => s.record judge x.startMs x.duration x.isError x.group
  | clear => s.clear

def run (defn : Threshold) (calls : List RingCall) : ThresholdState := calls.foldl (step judge) (.new defn)

end RingCall

/-- A call, as the spans recorded since the last clear see it. -/
def recordSpan (defn : Threshold) (log : List (ℕ × RingSpan)) : RingCall → List (ℕ × RingSpan)
  | .clear => []
  | .record x =>
    if (ThresholdState.new defn).watches x.group then log ++ [((ThresholdState.new defn).epochOf x.startMs, x)]
    else log

/-- The spans recorded since the last clear, under their epochs. -/
def recordedSpans (defn : Threshold) (calls : List RingCall) : List (ℕ × RingSpan) := calls.foldl (recordSpan defn) []

/-- The spans of the window: recorded since the last clear, not already older
than the window when they arrived, and in the last `buckets` epochs up to the
highest one seen. -/
def windowSpans (defn : Threshold) (calls : List RingCall) : List RingSpan :=
  (Wheel.within buckets (Wheel.newest (recordedSpans defn calls))
    (Wheel.admitted buckets (recordedSpans defn calls))).map Prod.snd

namespace RingSpan

/-- The duration in nanoseconds, if it is usable. -/
def okNs (x : RingSpan) : Option ℕ :=
  match x.duration with
  | .ok ns => some ns.toNat
  | _ => none

def isOk (x : RingSpan) : Bool := x.okNs.isSome

end RingSpan

/-- The summed usable durations of spans. -/
def totalNsOf (spans : List RingSpan) : ℕ := (spans.map fun x => x.okNs.getD 0).sum

/-- The sums are the spans'. -/
structure ReadsWindow (sums : WindowSums) (spans : List RingSpan) : Prop where
  count : sums.count.toNat = spans.length
  okCount : sums.okCount.toNat = spans.countP RingSpan.isOk
  totalNs : sums.totalNs.toNat = totalNsOf spans
  errors : sums.errors.toNat = spans.countP RingSpan.isError

/-! ### The ring is a wheel -/

/-- What one span adds. -/
def WindowSums.ofSpan (d : SpanDuration) (isError : Bool) : WindowSums := WindowSums.note 0 d isError

theorem WindowSums.note_eq (s : WindowSums) (d : SpanDuration) (isError : Bool) :
    s.note d isError = s + .ofSpan d isError := by
  refine WindowSums.ext ?_ ?_ ?_ ?_
  · exact congrArg (s.count + ·) (UInt64.zero_add 1).symm
  · cases d
    · exact congrArg (s.okCount + ·) (UInt64.zero_add 1).symm
    · exact (UInt64.add_zero _).symm
    · exact (UInt64.add_zero _).symm
  · cases d
    · exact congrArg (s.totalNs + ·) (UInt64.zero_add _).symm
    · exact (UInt64.add_zero _).symm
    · exact (UInt64.add_zero _).symm
  · cases isError
    · exact (UInt64.add_zero _).symm
    · exact congrArg (s.errors + ·) (UInt64.zero_add 1).symm

theorem Bucket.claim_eq (b : Bucket) (epoch : ℕ) :
    b.claim epoch = ⟨if b.epoch = epoch then b.toWindowSums else 0, epoch⟩ := by
  unfold Bucket.claim
  by_cases h : b.epoch = epoch
  · rw [if_pos h, if_pos h, ← h]
  · rw [if_neg h, if_neg h]

namespace ThresholdState

/-- The wheel a state's ring is. -/
def wheel (s : ThresholdState) : Wheel buckets WindowSums :=
  ⟨fun i => ⟨(s.ring i).epoch, (s.ring i).toWindowSums⟩, s.head⟩

theorem sums_eq (s : ThresholdState) : s.sums s.head = s.wheel.windowSum := by
  have hfold : ∀ (l : List (Fin buckets)) (acc : WindowSums),
      l.foldl (fun acc i =>
        if (s.ring i).epoch < s.head - (buckets - 1) ∨ (s.ring i).epoch > s.head then acc
        else acc + (s.ring i).toWindowSums) acc =
      acc + (l.map fun i => if s.head - (buckets - 1) ≤ (s.ring i).epoch ∧ (s.ring i).epoch ≤ s.head then
        (s.ring i).toWindowSums else 0).sum := by
    intro l
    induction l with
    | nil => exact fun acc => (add_zero acc).symm
    | cons i l ih =>
      intro acc
      rw [List.foldl_cons, ih, List.map_cons, List.sum_cons, ← add_assoc]
      congr 1
      by_cases hin : s.head - (buckets - 1) ≤ (s.ring i).epoch ∧ (s.ring i).epoch ≤ s.head
      · rw [if_pos hin, if_neg (by omega)]
      · rw [if_neg hin, if_pos (by omega), add_zero]
  unfold sums Wheel.windowSum
  rw [hfold, zero_add, ← Fin.sum_univ_def]
  rfl

variable (judge : Threshold → WindowSums → Option RingVerdict)

/-- An evaluation only moves the verdict. -/
theorem evaluate_kept (s : ThresholdState) (head : ℕ) : (s.evaluate judge head).wheel = s.wheel ∧
    (s.evaluate judge head).defn = s.defn ∧ (s.evaluate judge head).bucketMs = s.bucketMs := by
  unfold evaluate
  split
  · exact ⟨rfl, rfl, rfl⟩
  · split <;> exact ⟨rfl, rfl, rfl⟩

/-- **A recorded span is an entry of the wheel.** -/
theorem wheel_record (s : ThresholdState) (startMs : ℤ) (d : SpanDuration) (isError : Bool) (group : Option String) :
    (s.record judge startMs d isError group).wheel =
      if s.watches group then s.wheel.add (s.epochOf startMs) (.ofSpan d isError) else s.wheel := by
  unfold record
  cases s.watches group with
  | false => rfl
  | true =>
    rw [Bool.not_true, if_neg (by decide), if_pos rfl]
    dsimp only
    by_cases hpassed : s.epochOf startMs + buckets ≤ max s.head (s.epochOf startMs)
    · rw [if_pos hpassed]
      exact (if_pos hpassed).symm
    · rw [if_neg hpassed, (evaluate_kept judge _ _).1]
      refine Eq.trans ?_ (if_neg hpassed).symm
      refine congrArg (Wheel.mk · _) (funext fun i => ?_)
      dsimp only
      by_cases hi : i = Fin.ofNat buckets (s.epochOf startMs)
      · subst hi
        rw [Function.update_self, WindowSums.note_eq, Bucket.claim_eq]
        exact (Function.update_self (Wheel.slotOf buckets (s.epochOf startMs)) _ s.wheel.slots).symm
      · rw [Function.update_of_ne hi]
        exact (Function.update_of_ne hi _ s.wheel.slots).symm

/-- **A span in the window is judged by the sums after it.** -/
theorem record_judged (s : ThresholdState) {startMs : ℤ} (d : SpanDuration) (isError : Bool) {group : Option String}
    (hwatched : s.watches group = true) (hcovered : s.head < s.epochOf startMs + buckets) :
    ∃ t : ThresholdState, s.record judge startMs d isError group = t.evaluate judge t.head ∧ t.defn = s.defn ∧
      t.sums t.head = (s.record judge startMs d isError group).sums (s.record judge startMs d isError group).head := by
  have hlive : ¬ s.epochOf startMs + buckets ≤ max s.head (s.epochOf startMs) := by
    have : 0 < buckets := by decide
    omega
  obtain ⟨t, ht, hdefn⟩ : ∃ t : ThresholdState, s.record judge startMs d isError group = t.evaluate judge t.head ∧
      t.defn = s.defn :=
    ⟨_, (if_neg (by rw [hwatched]; decide)).trans (if_neg hlive), rfl⟩
  refine ⟨t, ht, hdefn, ?_⟩
  rw [ht, sums_eq, sums_eq, (evaluate_kept judge t t.head).1]

theorem record_kept (s : ThresholdState) (startMs : ℤ) (d : SpanDuration) (isError : Bool) (group : Option String) :
    (s.record judge startMs d isError group).defn = s.defn ∧
      (s.record judge startMs d isError group).bucketMs = s.bucketMs := by
  unfold record
  split
  · exact ⟨rfl, rfl⟩
  · dsimp only
    split
    · exact ⟨rfl, rfl⟩
    · exact (evaluate_kept judge _ _).2

end ThresholdState

/-! ### Runs -/

/-- What a span adds to the sums. -/
def RingSpan.sums (x : RingSpan) : WindowSums := .ofSpan x.duration x.isError

section
variable (judge : Threshold → WindowSums → Option RingVerdict) (defn : Threshold) (calls : List RingCall)

theorem run_concat (call : RingCall) :
    RingCall.run judge defn (calls ++ [call]) = RingCall.step judge (RingCall.run judge defn calls) call :=
  List.foldl_concat ..

theorem recordedSpans_concat (call : RingCall) :
    recordedSpans defn (calls ++ [call]) = recordSpan defn (recordedSpans defn calls) call :=
  List.foldl_concat ..

theorem run_kept : (RingCall.run judge defn calls).defn = defn ∧
    (RingCall.run judge defn calls).bucketMs = (ThresholdState.new defn).bucketMs := by
  induction calls using List.reverseRecOn with
  | nil => exact ⟨rfl, rfl⟩
  | append_singleton calls call ih =>
    rw [run_concat]
    cases call with
    | clear => exact ih
    | record x =>
      obtain ⟨hdefn, hwidth⟩ := ThresholdState.record_kept judge (RingCall.run judge defn calls) x.startMs x.duration
        x.isError x.group
      exact ⟨hdefn.trans ih.1, hwidth.trans ih.2⟩

/-- **The ring of a run is the wheel of the spans recorded since the last
clear.** -/
theorem wheel_run : (RingCall.run judge defn calls).wheel =
    Wheel.ofLog buckets ((recordedSpans defn calls).map (Prod.map id RingSpan.sums)) := by
  induction calls using List.reverseRecOn with
  | nil => rfl
  | append_singleton calls call ih =>
    obtain ⟨hdefn, hwidth⟩ := run_kept judge defn calls
    rw [run_concat, recordedSpans_concat]
    cases call with
    | clear => rfl
    | record x =>
      have hwatches : (RingCall.run judge defn calls).watches x.group = (ThresholdState.new defn).watches x.group := by
        unfold ThresholdState.watches
        rw [hdefn]
        rfl
      have hepoch : (RingCall.run judge defn calls).epochOf x.startMs =
          (ThresholdState.new defn).epochOf x.startMs := by
        unfold ThresholdState.epochOf
        rw [hwidth]
      unfold RingCall.step recordSpan
      dsimp only
      rw [ThresholdState.wheel_record, hwatches, hepoch, ih]
      split
      · rw [List.map_append, List.map_singleton, Wheel.ofLog_concat]
        rfl
      · rfl

/-- What an evaluation after a run adds up. -/
theorem sums_run : (RingCall.run judge defn calls).sums (RingCall.run judge defn calls).head =
    ((windowSpans defn calls).map RingSpan.sums).sum := by
  rw [ThresholdState.sums_eq, wheel_run, Wheel.windowSum_ofLog, Wheel.newest_map, Wheel.admitted_map, Wheel.within_map,
    List.map_map]
  unfold windowSpans
  rw [List.map_map]
  rfl

end

/-! ### The sums wrap -/

/-- A counter of a sum is the sum of the counters, modulo `2 ^ 64`. -/
theorem WindowSums.toNat_sum {A : Type} (f : A → WindowSums) (field : WindowSums → UInt64)
    (hzero : field 0 = 0) (hadd : ∀ a b, field (a + b) = field a + field b) (g : A → ℕ)
    (hone : ∀ a, (field (f a)).toNat = g a % 2 ^ 64) (l : List A) :
    (field (l.map f).sum).toNat = (l.map g).sum % 2 ^ 64 := by
  induction l with
  | nil => rw [List.map_nil, List.sum_nil, hzero]; rfl
  | cons a l ih =>
    rw [List.map_cons, List.sum_cons, hadd, UInt64.toNat_add, ih, hone, List.map_cons, List.sum_cons, ← Nat.add_mod]

theorem sum_map_ite_eq_countP {A : Type} (p : A → Bool) (l : List A) :
    (l.map fun a => if p a then 1 else 0).sum = l.countP p := by
  induction l with
  | nil => rfl
  | cons a l ih => rw [List.map_cons, List.sum_cons, ih, List.countP_cons, Nat.add_comm]

/-- The counters of a window's sums. -/
theorem toNat_sums (spans : List RingSpan) :
    ((spans.map RingSpan.sums).sum.count.toNat = spans.length % 2 ^ 64 ∧
      (spans.map RingSpan.sums).sum.okCount.toNat = spans.countP RingSpan.isOk % 2 ^ 64) ∧
    (spans.map RingSpan.sums).sum.totalNs.toNat = totalNsOf spans % 2 ^ 64 ∧
      (spans.map RingSpan.sums).sum.errors.toNat = spans.countP RingSpan.isError % 2 ^ 64 := by
  refine ⟨⟨?_, ?_⟩, ?_, ?_⟩
  · rw [WindowSums.toNat_sum RingSpan.sums WindowSums.count rfl (fun _ _ => rfl) (fun _ => 1) (fun _ => rfl) spans,
      List.map_const', List.sum_replicate, smul_eq_mul, Nat.mul_one]
  · rw [← sum_map_ite_eq_countP]
    refine WindowSums.toNat_sum RingSpan.sums WindowSums.okCount rfl (fun _ _ => rfl) _ (fun x => ?_) spans
    unfold RingSpan.sums WindowSums.ofSpan WindowSums.note RingSpan.isOk RingSpan.okNs
    cases x.duration <;> rfl
  · refine WindowSums.toNat_sum RingSpan.sums WindowSums.totalNs rfl (fun _ _ => rfl) _ (fun x => ?_) spans
    have hnonneg := x.nonneg
    unfold RingSpan.sums WindowSums.ofSpan WindowSums.note RingSpan.okNs
    cases hd : x.duration with
    | ok ns =>
      have hns := hnonneg ns hd
      dsimp only
      rw [UInt64.toNat_add, UInt64.toNat_ofNat']
      show (0 + (ns % 2 ^ 64).toNat % 2 ^ 64) % 2 ^ 64 = ns.toNat % 2 ^ 64
      omega
    | negative ns => rfl
    | malformed => rfl
  · rw [← sum_map_ite_eq_countP]
    refine WindowSums.toNat_sum RingSpan.sums WindowSums.errors rfl (fun _ _ => rfl) _ (fun x => ?_) spans
    unfold RingSpan.sums WindowSums.ofSpan WindowSums.note
    cases x.isError <;> rfl

/-- **The threshold ring equals its window** exactly when the window's spans
number fewer than `2 ^ 64` and last less than `2 ^ 64` nanoseconds in all. -/
theorem ring_equals_window_iff (judge : Threshold → WindowSums → Option RingVerdict) (defn : Threshold)
    (calls : List RingCall) :
    ReadsWindow ((RingCall.run judge defn calls).sums (RingCall.run judge defn calls).head) (windowSpans defn calls) ↔
      (windowSpans defn calls).length < 2 ^ 64 ∧ totalNsOf (windowSpans defn calls) < 2 ^ 64 := by
  rw [sums_run]
  generalize windowSpans defn calls = spans
  obtain ⟨⟨hcount, hok⟩, htotal, herrors⟩ := toNat_sums spans
  constructor
  · intro h
    exact ⟨by rw [← h.count]; exact UInt64.toNat_lt _, by rw [← h.totalNs]; exact UInt64.toNat_lt _⟩
  · rintro ⟨hlength, hns⟩
    exact
      { count := by rw [hcount, Nat.mod_eq_of_lt hlength]
        okCount := by rw [hok, Nat.mod_eq_of_lt (lt_of_le_of_lt List.countP_le_length hlength)]
        totalNs := by rw [htotal, Nat.mod_eq_of_lt hns]
        errors := by rw [herrors, Nat.mod_eq_of_lt (lt_of_le_of_lt List.countP_le_length hlength)] }

/-- A span as long as two timestamps make it. -/
def longSpan : RingSpan :=
  .ofSpan ⟨1, 1, 1, none, 1, i64Max, 0, "work", .internal, "svc", .unset, [], [], one_le_u64Max⟩ none

/-- Three such spans in one bucket. -/
theorem ring_wraps : ¬ ReadsWindow
    ((RingCall.run (fun _ _ => none) ⟨.totalMs, none, .gt, 200, 5000⟩
        [.record longSpan, .record longSpan, .record longSpan]).sums
      (RingCall.run (fun _ _ => none) ⟨.totalMs, none, .gt, 200, 5000⟩
        [.record longSpan, .record longSpan, .record longSpan]).head)
    (windowSpans ⟨.totalMs, none, .gt, 200, 5000⟩ [.record longSpan, .record longSpan, .record longSpan]) :=
  fun h => absurd h.totalNs (by decide +kernel)

end Logmon
