/-
# The exact tier

`collector/exact.rs` and `collector/intern.rs`: how a span's timestamps are
classified, the counters kept for a collector, a name and a group, and the
capped table that turns names and group values into ids. The duration sketch
is a third-party structure, taken as its two operations; what a sketch is
offered, and when a duration counts as out of range, is the code's.

Key definitions: `SpanDuration`, `classify`, `ExactStats`, `ExactStats.record`,
`Tally`, `Interner`, `Interner.intern`.
Key theorems: `ExactStats.tally_record`, `Interner.idOf_intern`,
`Interner.lookup_intern`.
-/
import Logmon.Lib.FMap
import Logmon.Span.Store
import Mathlib.Algebra.Group.Defs

namespace Logmon

open Lib

/-! ### One span's duration -/

def i64Min : ℤ := -2 ^ 63

def i64Max : ℤ := 2 ^ 63 - 1

/-- `DateTime::timestamp_nanos_opt`: none outside what an `i64` holds. -/
def timestampNanos (t : ℤ) : Option ℤ := if i64Min ≤ t ∧ t ≤ i64Max then some t else none

/-- `i64` subtraction, wrapping. -/
def i64Sub (a b : ℤ) : ℤ := (a - b - i64Min) % 2 ^ 64 + i64Min

/-- How one span's timestamps classified. -/
inductive SpanDuration
  /-- Well formed and non-negative, in nanoseconds. -/
  | ok (ns : ℤ)
  | negative (ns : ℤ)
  /-- An endpoint at the epoch, or out of the representable range. -/
  | malformed
  deriving DecidableEq

/-- Classify a span's duration from its timestamps. -/
def classify (span : SpanEntry) : SpanDuration :=
  match timestampNanos span.startTime, timestampNanos span.endTime with
  | some start, some stop =>
    if start = 0 ∨ stop = 0 then .malformed
    else if i64Sub stop start < 0 then .negative (i64Sub stop start)
    else .ok (i64Sub stop start)
  | _, _ => .malformed

def isError (span : SpanEntry) : Bool :=
  match span.status with
  | .error _ => true
  | _ => false

/-- The span's duration is well formed. -/
def SpanEntry.wellFormed (span : SpanEntry) : Bool :=
  match classify span with
  | .ok _ => true
  | _ => false

/-! ### The sketch -/

/-- What the daemon uses of a duration sketch: an empty one, and adding one
value, in nanoseconds. -/
structure SketchOps (S : Type) where
  new : S
  add : S → ℤ → S

/-- What happened to a value offered to the sketch. -/
inductive Recorded
  | added
  | zero
  | clamped
  | negativeRejected
  deriving DecidableEq

/-- `MIN_NS`. -/
def sketchMinNs : ℤ := 1

/-- `MAX_NS`: one hour. -/
def sketchMaxNs : ℤ := 3600000000000

variable {S : Type}

/-- Offer one duration, clamped to the declared range. -/
def SketchOps.record (ops : SketchOps S) (sketch : S) (ns : ℤ) : S × Recorded :=
  if ns < 0 then (sketch, .negativeRejected)
  else if ns ≤ sketchMinNs then (ops.add sketch 0, .zero)
  else if ns > sketchMaxNs then (ops.add sketch sketchMaxNs, .clamped)
  else (ops.add sketch ns, .added)

/-! ### The counters -/

/-- Exact scalars over a set of matched spans. -/
structure ExactStats (S : Type) where
  /-- Every matched span, including those left out of `totalNs`. -/
  count : ℕ
  totalNs : ℤ
  minNs : Option ℤ
  maxNs : Option ℤ
  errorCount : ℕ
  negativeDurationSpans : ℕ
  malformedTimestamps : ℕ
  outOfRangeSpans : ℕ
  sketch : S

/-- The additive counters of a row. -/
@[ext] structure Tally where
  count : ℕ
  totalNs : ℤ
  errorCount : ℕ
  negative : ℕ
  malformed : ℕ
  deriving DecidableEq

namespace Tally

instance : Zero Tally := ⟨⟨0, 0, 0, 0, 0⟩⟩

instance : Add Tally :=
  ⟨fun a b => ⟨a.count + b.count, a.totalNs + b.totalNs, a.errorCount + b.errorCount, a.negative + b.negative,
    a.malformed + b.malformed⟩⟩

theorem zero_def : (0 : Tally) = ⟨0, 0, 0, 0, 0⟩ := rfl

theorem add_def (a b : Tally) :
    a + b = ⟨a.count + b.count, a.totalNs + b.totalNs, a.errorCount + b.errorCount, a.negative + b.negative,
      a.malformed + b.malformed⟩ := rfl

instance : AddCommMonoid Tally where
  add_assoc a b c := by ext <;> simp [add_def, add_assoc]
  zero_add a := by ext <;> simp [add_def, zero_def]
  add_zero a := by ext <;> simp [add_def, zero_def]
  add_comm a b := by ext <;> simp [add_def, add_comm]
  nsmul := nsmulRec

/-- What one span adds to every row it belongs to. -/
def ofSpan (span : SpanEntry) : Tally where
  count := 1
  totalNs := match classify span with
    | .ok ns => ns
    | _ => 0
  errorCount := if isError span then 1 else 0
  negative := match classify span with
    | .negative _ => 1
    | _ => 0
  malformed := match classify span with
    | .malformed => 1
    | _ => 0

end Tally

namespace ExactStats

def new (ops : SketchOps S) : ExactStats S :=
  { count := 0, totalNs := 0, minNs := none, maxNs := none, errorCount := 0, negativeDurationSpans := 0,
    malformedTimestamps := 0, outOfRangeSpans := 0, sketch := ops.new }

def record (ops : SketchOps S) (d : SpanDuration) (isError : Bool) (s : ExactStats S) : ExactStats S :=
  let s := { s with count := s.count + 1, errorCount := if isError then s.errorCount + 1 else s.errorCount }
  match d with
  | .malformed => { s with malformedTimestamps := s.malformedTimestamps + 1 }
  | .negative _ => { s with negativeDurationSpans := s.negativeDurationSpans + 1 }
  | .ok ns =>
    { s with
      totalNs := s.totalNs + ns
      minNs := some ((s.minNs.map (min · ns)).getD ns)
      maxNs := some ((s.maxNs.map (max · ns)).getD ns)
      sketch := (ops.record s.sketch ns).1
      outOfRangeSpans := if (ops.record s.sketch ns).2 = .clamped then s.outOfRangeSpans + 1 else s.outOfRangeSpans }

/-- The denominator of an average. -/
def wellFormedCount (s : ExactStats S) : ℕ := s.count - s.negativeDurationSpans - s.malformedTimestamps

def tally (s : ExactStats S) : Tally :=
  ⟨s.count, s.totalNs, s.errorCount, s.negativeDurationSpans, s.malformedTimestamps⟩

@[simp] theorem tally_new (ops : SketchOps S) : (new ops).tally = 0 := rfl

/-- **A recorded span moves the counters by what it is**, whatever the row. -/
theorem tally_record (ops : SketchOps S) (span : SpanEntry) (s : ExactStats S) :
    (s.record ops (classify span) (isError span)).tally = s.tally + Tally.ofSpan span := by
  unfold record tally Tally.ofSpan
  rw [Tally.add_def]
  cases classify span <;> cases isError span <;> simp

end ExactStats

/-! ### The interner -/

/-- Everything past the cardinality cap folds here. -/
def overflowId : ℕ := 0

def overflowLabel : String := "__overflow__"

/-- The span did not carry this group key at all. -/
def absentId : ℕ := 1

def absentLabel : String := "__absent__"

def firstRealId : ℕ := 2

def defaultGroupValueCap : ℕ := 1024

def defaultNameCap : ℕ := 256

/-- A capped table of values. The ids it gives are real ones, below the next. -/
structure Interner where
  toId : FMap String ℕ
  toValue : List String
  cap : ℕ
  capped : Bool
  id_real : ∀ v id, toId.get? v = some id → firstRealId ≤ id ∧ id < firstRealId + toValue.length
  within : toValue.length ≤ cap

namespace Interner

def new (cap : ℕ) : Interner :=
  { toId := ∅, toValue := [], cap, capped := false, id_real := fun _ _ h => (nomatch h), within := Nat.zero_le _ }

/-- The ids stay real when a value takes the next one. -/
theorem real_append (i : Interner) (value v : String) (id : ℕ)
    (hv : (i.toId.insert value (firstRealId + i.toValue.length)).get? v = some id) :
    firstRealId ≤ id ∧ id < firstRealId + (i.toValue ++ [value]).length := by
  rw [FMap.get?_insert] at hv
  simp only [List.length_append, List.length_singleton]
  split at hv
  · cases hv
    omega
  · have := i.id_real v id hv
    omega

theorem within_append (i : Interner) (value : String) (h : ¬ i.toValue.length ≥ i.cap) :
    (i.toValue ++ [value]).length ≤ i.cap := by
  rw [List.length_append, List.length_singleton]
  omega

/-- Intern a value, or fold it into the overflow id once the cap is reached. -/
def intern (i : Interner) (value : String) : ℕ × Interner :=
  match i.toId.get? value with
  | some id => (id, i)
  | none =>
    if h : i.toValue.length ≥ i.cap then (overflowId, { i with capped := true })
    else
      (firstRealId + i.toValue.length,
        { i with
          toId := i.toId.insert value (firstRealId + i.toValue.length)
          toValue := i.toValue ++ [value]
          id_real := i.real_append value
          within := i.within_append value h })

/-- `resolve`: the label of an id. -/
def resolve (i : Interner) (id : ℕ) : String :=
  if id = overflowId then overflowLabel
  else if id = absentId then absentLabel
  else (i.toValue[id - firstRealId]?).getD overflowLabel

/-- The id a value has in the table as it stands, the overflow id when none. -/
def idOf (i : Interner) (value : String) : ℕ := (i.toId.get? value).getD overflowId

/-- What `intern` can do: find the value, refuse it a place, or give it the
next one. -/
theorem intern_cases (i : Interner) (value : String) :
    (∃ id, i.toId.get? value = some id ∧ i.intern value = (id, i)) ∨
    (i.toId.get? value = none ∧ i.toValue.length = i.cap ∧ (i.intern value).1 = overflowId ∧
      (i.intern value).2.toId = i.toId ∧ (i.intern value).2.toValue = i.toValue) ∨
    (i.toId.get? value = none ∧ i.toValue.length < i.cap ∧ (i.intern value).1 = firstRealId + i.toValue.length ∧
      (i.intern value).2.toId = i.toId.insert value (firstRealId + i.toValue.length) ∧
      (i.intern value).2.toValue = i.toValue ++ [value]) := by
  cases hv : i.toId.get? value with
  | some id => exact .inl ⟨id, rfl, by simp [intern, hv]⟩
  | none =>
    by_cases hc : i.toValue.length ≥ i.cap
    · have := i.within
      exact .inr (.inl ⟨rfl, by omega, by simp [intern, hv, hc], by simp [intern, hv, hc], by simp [intern, hv, hc]⟩)
    · have hlt : ¬ i.cap ≤ i.toValue.length := hc
      exact .inr (.inr ⟨rfl, by omega, by simp [intern, hv, hlt], by simp [intern, hv, hlt], by simp [intern, hv, hlt]⟩)

@[simp] theorem cap_intern (i : Interner) (value : String) : (i.intern value).2.cap = i.cap := by
  unfold intern
  split
  · rfl
  · split <;> rfl

/-- The id given is the id the table shows from then on. -/
theorem idOf_intern (i : Interner) (value : String) : (i.intern value).2.idOf value = (i.intern value).1 := by
  unfold idOf
  obtain ⟨id, hv, he⟩ | ⟨hv, -, h1, h2, -⟩ | ⟨-, -, h1, h2, -⟩ := i.intern_cases value
  · rw [he, hv]
    rfl
  · rw [h1, h2, hv]
    rfl
  · rw [h1, h2, FMap.get?_insert, if_pos rfl]
    rfl

/-- A value was offered to the table: it has a place, or the table was full. -/
def Seen (i : Interner) (value : String) : Prop := (i.toId.get? value).isSome ∨ i.toValue.length = i.cap

theorem seen_intern (i : Interner) (value : String) : (i.intern value).2.Seen value := by
  unfold Seen
  obtain ⟨id, hv, he⟩ | ⟨-, hfull, -, -, h3⟩ | ⟨-, -, -, h2, -⟩ := i.intern_cases value
  · exact .inl (by rw [he, hv]; rfl)
  · exact .inr (by rw [h3, cap_intern, hfull])
  · exact .inl (by rw [h2, FMap.get?_insert, if_pos rfl]; rfl)

/-- **Ids are stable**: whatever is interned later, a value that was offered
keeps its id, the overflow id included. -/
theorem lookup_intern {i : Interner} {value : String} (h : i.Seen value) (other : String) :
    (i.intern other).2.Seen value ∧ (i.intern other).2.idOf value = i.idOf value := by
  obtain ⟨id, hv, he⟩ | ⟨-, -, -, h2, h3⟩ | ⟨hv, hlt, -, h2, -⟩ := i.intern_cases other
  · rw [he]
    exact ⟨h, rfl⟩
  · simp only [Seen, idOf, h2, h3, cap_intern]
    exact ⟨h, trivial⟩
  · have hsome : (i.toId.get? value).isSome := by
      rcases h with h | h
      · exact h
      · omega
    have hne : value ≠ other := by
      rintro rfl
      rw [hv] at hsome
      cases hsome
    simp only [Seen, idOf, h2, FMap.get?_insert, if_neg hne]
    exact ⟨.inl hsome, trivial⟩

theorem intern_fst_lt (i : Interner) (value : String) :
    (i.intern value).1 = overflowId ∨
      firstRealId ≤ (i.intern value).1 ∧ (i.intern value).1 < firstRealId + (i.intern value).2.toValue.length := by
  obtain ⟨id, hv, he⟩ | ⟨-, -, h1, -, -⟩ | ⟨-, -, h1, -, h3⟩ := i.intern_cases value
  · rw [he]
    exact .inr (i.id_real _ _ hv)
  · exact .inl h1
  · rw [h1, h3, List.length_append, List.length_singleton]
    exact .inr (by omega)

theorem length_le_intern (i : Interner) (value : String) : i.toValue.length ≤ (i.intern value).2.toValue.length := by
  obtain ⟨id, hv, he⟩ | ⟨-, -, -, -, h3⟩ | ⟨-, -, -, -, h3⟩ := i.intern_cases value
  · rw [he]
  · rw [h3]
  · rw [h3, List.length_append]
    omega

end Interner

end Logmon
