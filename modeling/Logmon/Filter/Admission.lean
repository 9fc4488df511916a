/-
# Admitting a filter for a collector

`admit_span_filter` of `filter/admission.rs`: a filter that cannot match a
span by its shape is refused, and what is likely to surprise is marked. The
duration bounds are folded into one interval as the qualifiers are read.

Nothing is refused that a span of finite duration matches, and an interval
that is admitted holds the duration of one (`admission_exact`).

Key definitions: `AdmissionError`, `AdmissionWarning`, `selectorName`,
`admitQualifier`, `admitSpanFilter`, `Admissible`, `Scanned`.
Key theorems: `admitQualifier_spec`, `scanned_of_ok`,
`not_matches_of_inadmissible`, `exists_duration`, `admission_exact`.
-/
import Logmon.Filter.SpanMatcher
import Mathlib.Algebra.Order.Ring.Rat
import Mathlib.Order.Basic

namespace Logmon

open Lib

/-! ### Comparing durations -/

/-- `>` on `f64`, its sides exchanged. -/
def F64.lt (a b : F64) : Bool := a.le b && !b.le a

/-- `f64::max`: a NaN gives way. -/
def F64.max (a b : F64) : F64 :=
  match a, b with
  | .nan, b => b
  | a, .nan => a
  | a, b => if a.le b then b else a

/-- `f64::min`. -/
def F64.min (a b : F64) : F64 :=
  match a, b with
  | .nan, b => b
  | a, .nan => a
  | a, b => if a.le b then a else b

@[simp] theorem F64.le_finite (a b : ℚ) : (F64.finite a).le (.finite b) = decide (a ≤ b) := rfl

@[simp] theorem F64.lt_finite (a b : ℚ) : (F64.finite a).lt (.finite b) = decide (a < b) := by
  rw [F64.lt, F64.le_finite, F64.le_finite]
  by_cases h : a < b
  · simp [h, h.le]
  · simp [h, not_lt.mp h]

theorem F64.max_finite (a b : ℚ) : (F64.finite a).max (.finite b) = .finite (if a ≤ b then b else a) := by
  simp only [F64.max, F64.le_finite, decide_eq_true_eq]
  split <;> rfl

theorem F64.min_finite (a b : ℚ) : (F64.finite a).min (.finite b) = .finite (if a ≤ b then a else b) := by
  simp only [F64.min, F64.le_finite, decide_eq_true_eq]
  split <;> rfl

/-! ### Admission -/

/-- Why a filter cannot be accepted. -/
inductive AdmissionError
  | matchesNothing
  | logOnlyQualifier (name : String)
  | impossibleDurationThreshold (v : F64)
  | emptyDurationInterval (lower upper : F64)
  deriving DecidableEq

/-- What is admitted, but likely not meant. -/
inductive AdmissionWarning
  | uninterpretedSelector (name : String)
  | noSpanSpecificQualifier
  | noOpDurationThreshold (v : F64)
  | barePatternMatchesNameOnly
  | statusMatchesErrorMessages
  | attributeMatchIsStringOnly (name : String)
  deriving DecidableEq

/-- The name of a selector that only a log has. -/
def selectorName : Selector → Option String
  | .message => some "m"
  | .fullMessage => some "fm"
  | .messageOrFull => some "mfm"
  | .host => some "h"
  | .facility => some "fa"
  | .file => some "fi"
  | .line => some "ln"
  | _ => none

/-- What the loop over the qualifiers has gathered. -/
structure AdmissionScan where
  warnings : List AdmissionWarning
  hasSpanSpecific : Bool
  lower : Option F64
  upper : Option F64

namespace AdmissionScan

def new : AdmissionScan := ⟨[], false, none, none⟩

def warn (s : AdmissionScan) (w : List AdmissionWarning) : AdmissionScan := { s with warnings := s.warnings ++ w }

def spanSpecific (s : AdmissionScan) : AdmissionScan := { s with hasSpanSpecific := true }

@[simp] theorem lower_warn (s : AdmissionScan) (w : List AdmissionWarning) : (s.warn w).lower = s.lower := rfl

@[simp] theorem upper_warn (s : AdmissionScan) (w : List AdmissionWarning) : (s.warn w).upper = s.upper := rfl

@[simp] theorem lower_spanSpecific (s : AdmissionScan) : s.spanSpecific.lower = s.lower := rfl

@[simp] theorem upper_spanSpecific (s : AdmissionScan) : s.spanSpecific.upper = s.upper := rfl

end AdmissionScan

open AdmissionScan

def admitSelector (s : AdmissionScan) : Selector → AdmissionScan
  | .spanName => s.spanSpecific
  | .serviceName => s.spanSpecific
  | .spanKind => s.spanSpecific
  | .spanStatus => s.spanSpecific.warn [.statusMatchesErrorMessages]
  | .additionalField key => s.warn [.uninterpretedSelector key, .attributeMatchIsStringOnly key]
  | _ => s

/-- A duration bound: one no duration meets is refused, one that all meet is
marked, any other tightens the interval. -/
def admitDuration (s : AdmissionScan) (op : DurationOp) (v : F64) : Except AdmissionError AdmissionScan :=
  match op, v with
  | _, .nan => .error (.impossibleDurationThreshold v)
  | .gte, .posInf => .error (.impossibleDurationThreshold v)
  | .lte, .negInf => .error (.impossibleDurationThreshold v)
  | .lte, .posInf => .ok (s.spanSpecific.warn [.noOpDurationThreshold v])
  | .gte, .negInf => .ok (s.spanSpecific.warn [.noOpDurationThreshold v])
  | .gte, .finite _ => .ok { s.spanSpecific with lower := some ((s.lower.map fun l => l.max v).getD v) }
  | .lte, .finite _ => .ok { s.spanSpecific with upper := some ((s.upper.map fun u => u.min v).getD v) }

/-- One turn of the loop. -/
def admitQualifier (s : AdmissionScan) : Qualifier → Except AdmissionError AdmissionScan
  | .levelFilter _ _ => .error (.logOnlyQualifier "l")
  | .selectorPattern sel _ =>
    match selectorName sel with
    | some name => .error (.logOnlyQualifier name)
    | none => .ok (admitSelector s sel)
  | .durationFilter op v => admitDuration s op v
  | .barePattern _ => .ok (s.warn [.barePatternMatchesNameOnly])
  | .bookmarkFilter _ _ => .ok s
  | .cursorFilter _ => .ok s
  | .seqFilter _ _ => .ok s
  | .cursorSeq _ => .ok s

def admitQualifiers (s : AdmissionScan) : List Qualifier → Except AdmissionError AdmissionScan
  | [] => .ok s
  | q :: qs =>
    match admitQualifier s q with
    | .error e => .error e
    | .ok s' => admitQualifiers s' qs

/-- What is left to check of the interval, and to mark. -/
def AdmissionScan.conclude (s : AdmissionScan) : Except AdmissionError (List AdmissionWarning) :=
  match s.lower, s.upper with
  | some l, some u =>
    if u.lt l then .error (.emptyDurationInterval l u)
    else .ok (if s.hasSpanSpecific then s.warnings else s.warnings ++ [.noSpanSpecificQualifier])
  | _, _ => .ok (if s.hasSpanSpecific then s.warnings else s.warnings ++ [.noSpanSpecificQualifier])

/-- `admit_span_filter`. -/
def admitSpanFilter : ParsedFilter → Except AdmissionError (List AdmissionWarning)
  | .none => .error .matchesNothing
  | .all => .ok []
  | .qualifiers qs =>
    match admitQualifiers .new qs with
    | .error e => .error e
    | .ok s => s.conclude

/-! ### The scan -/

/-- Some span of finite duration may match the qualifier, as far as admission
asks. -/
def Admissible : Qualifier → Prop
  | .levelFilter _ _ => False
  | .selectorPattern sel _ => selectorName sel = none
  | .durationFilter op v => v ≠ .nan ∧ (op = .gte → v ≠ .posInf) ∧ (op = .lte → v ≠ .negInf)
  | _ => True

/-- The finite lower bounds on the duration. -/
def lowerBounds (qs : List Qualifier) : List ℚ :=
  qs.filterMap fun q => match q with
    | .durationFilter .gte (.finite v) => some v
    | _ => none

def upperBounds (qs : List Qualifier) : List ℚ :=
  qs.filterMap fun q => match q with
    | .durationFilter .lte (.finite v) => some v
    | _ => none

theorem lowerBounds_append (qs rs : List Qualifier) : lowerBounds (qs ++ rs) = lowerBounds qs ++ lowerBounds rs :=
  List.filterMap_append

theorem upperBounds_append (qs rs : List Qualifier) : upperBounds (qs ++ rs) = upperBounds qs ++ upperBounds rs :=
  List.filterMap_append

theorem mem_lowerBounds {qs : List Qualifier} {v : ℚ} :
    v ∈ lowerBounds qs ↔ .durationFilter .gte (.finite v) ∈ qs := by
  unfold lowerBounds
  rw [List.mem_filterMap]
  constructor
  · rintro ⟨q, hq, h⟩
    split at h
    · obtain rfl := Option.some.inj h
      exact hq
    · cases h
  · exact fun h => ⟨_, h, rfl⟩

theorem mem_upperBounds {qs : List Qualifier} {v : ℚ} :
    v ∈ upperBounds qs ↔ .durationFilter .lte (.finite v) ∈ qs := by
  unfold upperBounds
  rw [List.mem_filterMap]
  constructor
  · rintro ⟨q, hq, h⟩
    split at h
    · obtain rfl := Option.some.inj h
      exact hq
    · cases h
  · exact fun h => ⟨_, h, rfl⟩

/-- The value kept of some bounds: none of none, else one of them that all the
others are `r` to. -/
def Kept (r : ℚ → ℚ → Prop) (o : Option F64) (bounds : List ℚ) : Prop :=
  o = none ∧ bounds = [] ∨ ∃ b ∈ bounds, o = some (.finite b) ∧ ∀ c ∈ bounds, r c b

theorem Kept.nil (r : ℚ → ℚ → Prop) : Kept r none [] := .inl ⟨rfl, rfl⟩

theorem Kept.max {o : Option F64} {bounds : List ℚ} (h : Kept (· ≤ ·) o bounds) (v : ℚ) :
    Kept (· ≤ ·) (some ((o.map fun l => l.max (.finite v)).getD (.finite v))) (bounds ++ [v]) := by
  right
  obtain ⟨rfl, rfl⟩ | ⟨b, hb, rfl, hall⟩ := h
  · exact ⟨v, by simp, rfl, by simp⟩
  · rw [Option.map_some, Option.getD_some, F64.max_finite]
    simp only [List.mem_append, List.mem_singleton]
    by_cases hle : b ≤ v
    · rw [if_pos hle]
      refine ⟨v, .inr rfl, rfl, ?_⟩
      rintro c (hc | rfl)
      · exact (hall c hc).trans hle
      · exact le_rfl
    · rw [if_neg hle]
      refine ⟨b, .inl hb, rfl, ?_⟩
      rintro c (hc | rfl)
      · exact hall c hc
      · exact le_of_not_ge hle

theorem Kept.min {o : Option F64} {bounds : List ℚ} (h : Kept (· ≥ ·) o bounds) (v : ℚ) :
    Kept (· ≥ ·) (some ((o.map fun u => u.min (.finite v)).getD (.finite v))) (bounds ++ [v]) := by
  right
  obtain ⟨rfl, rfl⟩ | ⟨b, hb, rfl, hall⟩ := h
  · exact ⟨v, by simp, rfl, by simp⟩
  · rw [Option.map_some, Option.getD_some, F64.min_finite]
    simp only [List.mem_append, List.mem_singleton]
    by_cases hle : b ≤ v
    · rw [if_pos hle]
      refine ⟨b, .inl hb, rfl, ?_⟩
      rintro c (hc | rfl)
      · exact hall c hc
      · exact hle
    · rw [if_neg hle]
      refine ⟨v, .inr rfl, rfl, ?_⟩
      rintro c (hc | rfl)
      · exact le_trans (le_of_not_ge hle) (hall c hc)
      · exact le_rfl

/-- What the loop holds after the qualifiers `done`. -/
structure Scanned (s : AdmissionScan) (done : List Qualifier) : Prop where
  admissible : ∀ q ∈ done, Admissible q
  lower : Kept (· ≤ ·) s.lower (lowerBounds done)
  upper : Kept (· ≥ ·) s.upper (upperBounds done)

theorem Scanned.new : Scanned AdmissionScan.new [] := ⟨by simp, .nil _, .nil _⟩

theorem Scanned.concat {s s' : AdmissionScan} {done : List Qualifier} (h : Scanned s done) {q : Qualifier}
    (hq : Admissible q) (hlower : Kept (· ≤ ·) s'.lower (lowerBounds done ++ lowerBounds [q]))
    (hupper : Kept (· ≥ ·) s'.upper (upperBounds done ++ upperBounds [q])) : Scanned s' (done ++ [q]) := by
  refine ⟨fun r hr => ?_, by rwa [lowerBounds_append], by rwa [upperBounds_append]⟩
  rcases List.mem_append.mp hr with hr | hr
  · exact h.admissible r hr
  · exact List.mem_singleton.mp hr ▸ hq

/-- A turn that leaves the interval as it is. -/
theorem Scanned.skip {s s' : AdmissionScan} {done : List Qualifier} (h : Scanned s done) {q : Qualifier}
    (hq : Admissible q) (hlower : lowerBounds [q] = []) (hupper : upperBounds [q] = []) (hl : s'.lower = s.lower)
    (hu : s'.upper = s.upper) : Scanned s' (done ++ [q]) :=
  h.concat hq (by rw [hlower, List.append_nil, hl]; exact h.lower) (by rw [hupper, List.append_nil, hu]; exact h.upper)

theorem admitSelector_bounds (s : AdmissionScan) (sel : Selector) :
    (admitSelector s sel).lower = s.lower ∧ (admitSelector s sel).upper = s.upper := by
  cases sel <;> exact ⟨rfl, rfl⟩

/-- **One turn**: the qualifier is admissible and the interval it leaves is
that of one bound more, or it is refused. -/
theorem admitQualifier_spec {s : AdmissionScan} {done : List Qualifier} (h : Scanned s done) (q : Qualifier) :
    (∃ s', admitQualifier s q = .ok s' ∧ Scanned s' (done ++ [q])) ∨
      (∃ e, admitQualifier s q = .error e) ∧ ¬ Admissible q := by
  cases q with
  | levelFilter op level => exact .inr ⟨⟨_, rfl⟩, id⟩
  | selectorPattern sel p =>
    cases hs : selectorName sel with
    | some name =>
      refine .inr ⟨⟨.logOnlyQualifier name, by simp only [admitQualifier, hs]⟩, fun hq => ?_⟩
      rw [Admissible, hs] at hq
      cases hq
    | none =>
      obtain ⟨hl, hu⟩ := admitSelector_bounds s sel
      exact .inl ⟨admitSelector s sel, by simp only [admitQualifier, hs], h.skip hs rfl rfl hl hu⟩
  | durationFilter op v =>
    cases v with
    | nan => cases op <;> exact .inr ⟨⟨_, rfl⟩, fun hq => hq.1 rfl⟩
    | negInf =>
      cases op with
      | gte => exact .inl ⟨_, rfl, h.skip ⟨nofun, fun _ => nofun, nofun⟩ rfl rfl rfl rfl⟩
      | lte => exact .inr ⟨⟨_, rfl⟩, fun hq => hq.2.2 rfl rfl⟩
    | posInf =>
      cases op with
      | gte => exact .inr ⟨⟨_, rfl⟩, fun hq => hq.2.1 rfl rfl⟩
      | lte => exact .inl ⟨_, rfl, h.skip ⟨nofun, nofun, fun _ => nofun⟩ rfl rfl rfl rfl⟩
    | finite v =>
      cases op with
      | gte => exact .inl ⟨_, rfl, h.concat ⟨nofun, fun _ => nofun, nofun⟩ (h.lower.max v) (by simpa [upperBounds] using h.upper)⟩
      | lte => exact .inl ⟨_, rfl, h.concat ⟨nofun, nofun, fun _ => nofun⟩ (by simpa [lowerBounds] using h.lower) (h.upper.min v)⟩
  | barePattern p => exact .inl ⟨_, rfl, h.skip trivial rfl rfl rfl rfl⟩
  | bookmarkFilter op name => exact .inl ⟨_, rfl, h.skip trivial rfl rfl rfl rfl⟩
  | cursorFilter name => exact .inl ⟨_, rfl, h.skip trivial rfl rfl rfl rfl⟩
  | seqFilter op v => exact .inl ⟨_, rfl, h.skip trivial rfl rfl rfl rfl⟩
  | cursorSeq after => exact .inl ⟨_, rfl, h.skip trivial rfl rfl rfl rfl⟩

/-- **A whole scan.** -/
theorem scanned_of_ok : ∀ {qs : List Qualifier} {s s' : AdmissionScan} {done : List Qualifier}, Scanned s done →
    admitQualifiers s qs = .ok s' → Scanned s' (done ++ qs)
  | [], s, s', done, h, hok => by
    obtain rfl := Except.ok.inj hok
    rwa [List.append_nil]
  | q :: qs, s, s', done, h, hok => by
    rw [admitQualifiers] at hok
    obtain ⟨s₁, hq, h₁⟩ | ⟨⟨e, hq⟩, -⟩ := admitQualifier_spec h q
    · rw [hq] at hok
      rw [List.append_cons]
      exact scanned_of_ok h₁ hok
    · rw [hq] at hok
      cases hok

theorem inadmissible_of_error : ∀ {qs : List Qualifier} {s : AdmissionScan} {done : List Qualifier} {e : AdmissionError},
    Scanned s done → admitQualifiers s qs = .error e → ∃ q ∈ qs, ¬ Admissible q
  | [], s, done, e, _, herror => by
    rw [admitQualifiers] at herror
    cases herror
  | q :: qs, s, done, e, h, herror => by
    rw [admitQualifiers] at herror
    obtain ⟨s₁, hq, h₁⟩ | ⟨-, hbad⟩ := admitQualifier_spec h q
    · rw [hq] at herror
      obtain ⟨r, hr, hbad⟩ := inadmissible_of_error h₁ herror
      exact ⟨r, List.mem_cons_of_mem _ hr, hbad⟩
    · exact ⟨q, List.mem_cons_self, hbad⟩

/-! ### The spans a filter matches -/

section
variable (E : TextEnv)

/-- A qualifier that is refused matches no span of finite duration. -/
theorem not_matches_of_inadmissible {q : Qualifier} (h : ¬ Admissible q) {span : SpanEntry} {d : ℚ}
    (hd : span.durationMs = .finite d) : matchesSpanQualifier E q span = false := by
  cases q with
  | levelFilter op level => rfl
  | selectorPattern sel p =>
    rw [Admissible] at h
    cases sel <;> first | rfl | exact absurd rfl h
  | durationFilter op v =>
    cases v with
    | nan => cases op <;> simp [matchesSpanQualifier, hd, F64.le]
    | negInf =>
      cases op with
      | gte => exact absurd ⟨nofun, fun _ => nofun, nofun⟩ h
      | lte => simp [matchesSpanQualifier, hd, F64.le]
    | posInf =>
      cases op with
      | gte => simp [matchesSpanQualifier, hd, F64.le]
      | lte => exact absurd ⟨nofun, nofun, fun _ => nofun⟩ h
    | finite v => exact absurd ⟨nofun, fun _ => nofun, fun _ => nofun⟩ h
  | barePattern p => exact absurd trivial h
  | bookmarkFilter op name => exact absurd trivial h
  | cursorFilter name => exact absurd trivial h
  | seqFilter op v => exact absurd trivial h
  | cursorSeq after => exact absurd trivial h

theorem matchesSpan_false {qs : List Qualifier} {q : Qualifier} (hq : q ∈ qs) {span : SpanEntry}
    (h : matchesSpanQualifier E q span = false) : matchesSpan E (.qualifiers qs) span = false := by
  rw [matchesSpan, List.all_eq_false]
  exact ⟨q, hq, by simp [h]⟩

theorem conclude_error {s : AdmissionScan} {e : AdmissionError} (h : s.conclude = .error e) :
    ∃ l u, s.lower = some l ∧ s.upper = some u ∧ u.lt l = true := by
  unfold AdmissionScan.conclude at h
  cases hl : s.lower with
  | none =>
    rw [hl] at h
    cases h
  | some l =>
    cases hu : s.upper with
    | none =>
      rw [hl, hu] at h
      cases h
    | some u =>
      rw [hl, hu] at h
      by_cases hlt : u.lt l = true
      · exact ⟨l, u, rfl, rfl, hlt⟩
      · simp only [if_neg hlt] at h
        cases h

theorem conclude_ok {s : AdmissionScan} {w : List AdmissionWarning} (h : s.conclude = .ok w) {l u : F64}
    (hl : s.lower = some l) (hu : s.upper = some u) : u.lt l = false := by
  unfold AdmissionScan.conclude at h
  rw [hl, hu] at h
  by_cases hlt : u.lt l = true
  · simp only [if_pos hlt] at h
    cases h
  · exact Bool.not_eq_true _ ▸ hlt

/-- **Nothing that a span of finite duration matches is refused.** -/
theorem matchesSpan_of_error {f : ParsedFilter} {e : AdmissionError} (h : admitSpanFilter f = .error e)
    {span : SpanEntry} {d : ℚ} (hd : span.durationMs = .finite d) : matchesSpan E f span = false := by
  cases f with
  | all => cases h
  | none => rfl
  | qualifiers qs =>
    rw [admitSpanFilter] at h
    cases hscan : admitQualifiers .new qs with
    | error e' =>
      obtain ⟨q, hq, hbad⟩ := inadmissible_of_error .new hscan
      exact matchesSpan_false E hq (not_matches_of_inadmissible E hbad hd)
    | ok s =>
      rw [hscan] at h
      obtain ⟨l, u, hl, hu, hlt⟩ := conclude_error h
      have hs : Scanned s qs := scanned_of_ok .new hscan
      obtain ⟨hnone, -⟩ | ⟨a, ha, hla, -⟩ := hs.lower
      · rw [hl] at hnone
        cases hnone
      · obtain ⟨hnone, -⟩ | ⟨b, hb, hub, -⟩ := hs.upper
        · rw [hu] at hnone
          cases hnone
        · obtain rfl := Option.some.inj (hl.symm.trans hla)
          obtain rfl := Option.some.inj (hu.symm.trans hub)
          rw [F64.lt_finite, decide_eq_true_eq] at hlt
          -- the duration cannot be on both sides of the gap
          by_cases had : a ≤ d
          · refine matchesSpan_false E (mem_upperBounds.mp hb) ?_
            simpa [matchesSpanQualifier, hd] using hlt.trans_le had
          · refine matchesSpan_false E (mem_lowerBounds.mp ha) ?_
            simpa [matchesSpanQualifier, hd] using had

end

/-- A duration within all the bounds of an admitted filter: one of them, or
any at all. -/
theorem exists_duration {qs : List Qualifier} {w : List AdmissionWarning}
    (h : admitSpanFilter (.qualifiers qs) = .ok w) :
    (∀ q ∈ qs, Admissible q) ∧ ∃ d, (d ∈ lowerBounds qs ∨ d ∈ upperBounds qs ∨ d = 0) ∧
      (∀ v ∈ lowerBounds qs, v ≤ d) ∧ ∀ v ∈ upperBounds qs, d ≤ v := by
  rw [admitSpanFilter] at h
  cases hscan : admitQualifiers .new qs with
  | error e =>
    rw [hscan] at h
    cases h
  | ok s =>
    rw [hscan] at h
    have hs : Scanned s qs := scanned_of_ok .new hscan
    refine ⟨hs.admissible, ?_⟩
    obtain ⟨hlnone, hlower⟩ | ⟨a, ha, hla, hall⟩ := hs.lower
    · rw [hlower]
      obtain ⟨hunone, hupper⟩ | ⟨b, hb, hub, hall⟩ := hs.upper
      · rw [hupper]
        exact ⟨0, by simp⟩
      · exact ⟨b, .inr (.inl hb), by simp, fun v hv => hall v hv⟩
    · refine ⟨a, .inl ha, hall, fun v hv => ?_⟩
      obtain ⟨hunone, hupper⟩ | ⟨b, hb, hub, hall'⟩ := hs.upper
      · rw [hupper] at hv
        exact absurd hv List.not_mem_nil
      · have hlt := conclude_ok h hla hub
        rw [F64.lt_finite, decide_eq_false_iff_not, not_lt] at hlt
        exact hlt.trans (hall' v hv)

/-- The thresholds of the filter are `f64` values. -/
def ParsedFilter.Representable (f : ParsedFilter) : Prop :=
  ∀ op v, .durationFilter op v ∈ f.listed → ∃ bits < 2 ^ 64, F64.ofBits bits = v

/-- A span of some duration. -/
def spanOfDuration (bits : ℕ) : SpanEntry where
  seq := 0
  traceId := 1
  spanId := 1
  parentSpanId := none
  startTime := 1
  endTime := 1
  durationBits := bits
  name := "work"
  kind := .internal
  serviceName := "unknown"
  status := .unset
  attributes := []
  events := []
  seq_le := Nat.zero_le _

/-- **Admission refuses what no span of finite duration matches, and admits
what one does**, as far as the durations go. -/
theorem admission_exact (E : TextEnv) (f : ParsedFilter) (hf : f.Representable) :
    (∀ e, admitSpanFilter f = .error e → ∀ span d, span.durationMs = .finite d → matchesSpan E f span = false) ∧
      ∀ w, admitSpanFilter f = .ok w → (∀ q ∈ f.listed, ∃ op v, q = .durationFilter op v) →
        ∃ span d, span.durationMs = .finite d ∧ matchesSpan E f span = true := by
  refine ⟨fun e he span d hd => matchesSpan_of_error E he hd, fun w hw hdur => ?_⟩
  have hzero : F64.ofBits 0 = .finite 0 := by simp [F64.ofBits]
  cases f with
  | all => exact ⟨spanOfDuration 0, 0, hzero, rfl⟩
  | none => cases hw
  | qualifiers qs =>
    obtain ⟨hadmissible, d, hd, hlower, hupper⟩ := exists_duration hw
    obtain ⟨bits, hbits⟩ : ∃ bits, F64.ofBits bits = .finite d := by
      rcases hd with hd | hd | rfl
      · obtain ⟨bits, -, hbits⟩ := hf .gte (.finite d) (mem_lowerBounds.mp hd)
        exact ⟨bits, hbits⟩
      · obtain ⟨bits, -, hbits⟩ := hf .lte (.finite d) (mem_upperBounds.mp hd)
        exact ⟨bits, hbits⟩
      · exact ⟨0, hzero⟩
    have hspan : (spanOfDuration bits).durationMs = .finite d := hbits
    refine ⟨spanOfDuration bits, d, hspan, ?_⟩
    rw [matchesSpan, List.all_eq_true]
    intro q hq
    obtain ⟨op, v, rfl⟩ := hdur q hq
    obtain ⟨hnan, hpos, hneg⟩ := hadmissible _ hq
    cases op with
    | gte =>
      rw [matchesSpanQualifier, hspan]
      cases v with
      | nan => exact absurd rfl hnan
      | negInf => rfl
      | posInf => exact absurd rfl (hpos rfl)
      | finite v => simpa using hlower v (mem_lowerBounds.mpr hq)
    | lte =>
      rw [matchesSpanQualifier, hspan]
      cases v with
      | nan => exact absurd rfl hnan
      | negInf => exact absurd rfl (hneg rfl)
      | posInf => rfl
      | finite v => simpa using hupper v (mem_upperBounds.mpr hq)

/-- `d>=0, d<=+inf`. -/
theorem admission_exact_zero :
    ∃ span d, span.durationMs = .finite d ∧
      matchesSpan .ascii (.qualifiers [.durationFilter .gte (.finite 0), .durationFilter .lte .posInf]) span = true := by
  refine (admission_exact .ascii _ ?_).2 _ rfl ?_
  · intro op v hv
    simp only [ParsedFilter.listed, List.mem_cons, Qualifier.durationFilter.injEq, List.not_mem_nil, or_false] at hv
    obtain ⟨-, rfl⟩ | ⟨-, rfl⟩ := hv
    · exact ⟨0, by decide, by simp [F64.ofBits]⟩
    · exact ⟨2047 * 2 ^ 52, by decide, by simp [F64.ofBits]⟩
  · intro q hq
    simp only [ParsedFilter.listed, List.mem_cons, List.not_mem_nil, or_false] at hq
    obtain rfl | rfl := hq
    · exact ⟨_, _, rfl⟩
    · exact ⟨_, _, rfl⟩

end Logmon
