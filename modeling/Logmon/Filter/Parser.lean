/-
# Filters, and the seq window a filter selects

The parsed form of the filter DSL (`filter/parser.rs`) and the functions that
read a window out of a resolved filter: its inclusive seq range
(`resolvedSeqRange`) and how far the loss floor has risen into it
(`evictedBeforeWindow`). A filter the parser produces never holds the
internal `cursorSeq` qualifier (`ParsedFilter.FromParser`).

Key definitions: `Qualifier`, `ParsedFilter`, `resolvedLowerBound`,
`resolvedSeqRange`, `evictedBelow`, `evictedBeforeWindow`.
Key theorems: `resolvedSeqRange_tightened`, `lostBelow_le_of_evicted_none`.
-/
import Logmon.Gelf.Message
import Mathlib.Data.Rat.Defs

namespace Logmon

open Lib

/-- An `f64`, exactly: a finite value is the rational it denotes. -/
inductive F64
  | nan
  | negInf
  | finite (q : ℚ)
  | posInf
  deriving DecidableEq

inductive DurationOp
  | gte
  | lte
  deriving DecidableEq

inductive BookmarkOp
  | gte
  | lte
  deriving DecidableEq

/-- Strict: `b>=name` and `b<=name` resolve to `>` and `<` against the
bookmark's seq. -/
inductive SeqOp
  | gt
  | lt
  deriving DecidableEq

inductive LevelOp
  | eq
  | gte
  | lte
  deriving DecidableEq

/-- A substring, or a regex by its source and case flag. -/
inductive Pattern
  | substring (s : String)
  | regex (source : String) (caseInsensitive : Bool)
  deriving DecidableEq

inductive Selector
  | message
  | fullMessage
  | messageOrFull
  | host
  | facility
  | file
  | line
  | spanName
  | serviceName
  | spanStatus
  | spanKind
  | additionalField (name : String)
  deriving DecidableEq

inductive Qualifier
  | barePattern (p : Pattern)
  | selectorPattern (s : Selector) (p : Pattern)
  | levelFilter (op : LevelOp) (level : Level)
  | durationFilter (op : DurationOp) (ms : F64)
  | bookmarkFilter (op : BookmarkOp) (name : String)
  | cursorFilter (name : String)
  | seqFilter (op : SeqOp) (value : ℕ)
  | cursorSeq (after : ℕ)
  deriving DecidableEq

inductive ParsedFilter
  | all
  | none
  | qualifiers (qs : List Qualifier)
  deriving DecidableEq

/-- The qualifiers of a filter; the two words have none. -/
def ParsedFilter.listed : ParsedFilter → List Qualifier
  | .qualifiers qs => qs
  | _ => []

/-- `cursorSeq` is internal: only the bookmark resolver writes it. -/
def ParsedFilter.FromParser : ParsedFilter → Prop
  | .all => True
  | .none => True
  | .qualifiers qs => ∀ after, Qualifier.cursorSeq after ∉ qs

/-- The strict lower seq bound of one qualifier. A cursor's own bound is one
like any other. -/
def Qualifier.lower? : Qualifier → Option ℕ
  | .seqFilter .gt v => some v
  | .cursorSeq after => some after
  | _ => none

/-- The strict upper seq bound of one qualifier. -/
def Qualifier.upper? : Qualifier → Option ℕ
  | .seqFilter .lt v => some v
  | _ => none

/-- The larger of two optional bounds; a missing one does not count. -/
def maxOpt : Option ℕ → Option ℕ → Option ℕ
  | none, b => b
  | some a, none => some a
  | some a, some b => some (max a b)

/-- The smaller of two optional bounds; a missing one does not count. -/
def minOpt : Option ℕ → Option ℕ → Option ℕ
  | none, b => b
  | some a, none => some a
  | some a, some b => some (min a b)

/-- The strict lower bound of a resolved query: with several, the largest. -/
def resolvedLowerBound : ParsedFilter → Option ℕ
  | .qualifiers qs => (qs.filterMap Qualifier.lower?).foldl (fun acc v => maxOpt acc (some v)) none
  | _ => none

/-- One turn of `resolved_seq_range`'s loop: the qualifier's strict bound,
made inclusive, tightens the window. -/
def tighten (w : Option ℕ × Option ℕ) (q : Qualifier) : Option ℕ × Option ℕ :=
  match q with
  | .seqFilter .gt v => (maxOpt w.1 (some (satAdd v 1)), w.2)
  | .cursorSeq after => (maxOpt w.1 (some (satAdd after 1)), w.2)
  | .seqFilter .lt v => (w.1, minOpt w.2 (some (v - 1)))
  | _ => w

/-- The inclusive seq window a resolved query selects: `(lowest, highest)`,
each `none` when the query is unbounded in that direction. -/
def resolvedSeqRange : Option ParsedFilter → Option ℕ × Option ℕ
  | some (.qualifiers qs) => qs.foldl tighten (none, none)
  | _ => (none, none)

/-- Records lost off the front of an inclusive window starting at `start`. -/
def evictedBelow (start lostBelow : ℕ) : Option ℕ :=
  if start < lostBelow then some (lostBelow - start) else none

/-- How far the floor has risen into the window the query asked for. -/
def evictedBeforeWindow (f : ParsedFilter) (lostBelow : ℕ) : Option ℕ :=
  match resolvedLowerBound f with
  | none => none
  | some lb => evictedBelow (satAdd lb 1) lostBelow

/-! ### The window against its bounds -/

/-- What the loop's window says of the qualifiers it has read: its lower end
is at least every lower bound made inclusive, its upper end at most every
upper bound made inclusive, and an end is missing only if no bound was. -/
structure Tightened (w : Option ℕ × Option ℕ) (qs : List Qualifier) : Prop where
  lo : ∀ q ∈ qs, ∀ v, q.lower? = some v → ∃ n, w.1 = some n ∧ satAdd v 1 ≤ n
  hi : ∀ q ∈ qs, ∀ v, q.upper? = some v → ∃ n, w.2 = some n ∧ n ≤ v - 1

theorem tightened_step {w : Option ℕ × Option ℕ} {qs : List Qualifier} (h : Tightened w qs) (q : Qualifier) :
    Tightened (tighten w q) (qs ++ [q]) := by
  have hmax : ∀ (n v : ℕ), w.1 = some n → satAdd v 1 ≤ n → ∀ u, ∃ m, maxOpt w.1 (some u) = some m ∧ satAdd v 1 ≤ m := by
    intro n v hn hv u
    exact ⟨max n u, by simp [hn, maxOpt], le_trans hv (le_max_left _ _)⟩
  have hmin : ∀ (n v : ℕ), w.2 = some n → n ≤ v - 1 → ∀ u, ∃ m, minOpt w.2 (some u) = some m ∧ m ≤ v - 1 := by
    intro n v hn hv u
    exact ⟨min n u, by simp [hn, minOpt], le_trans (min_le_left _ _) hv⟩
  have hself : ∀ u, ∃ m, maxOpt w.1 (some u) = some m ∧ u ≤ m := by
    intro u
    cases h1 : w.1 with
    | none => exact ⟨u, by simp [maxOpt], le_rfl⟩
    | some n => exact ⟨max n u, by simp [maxOpt], le_max_right _ _⟩
  have hself' : ∀ u, ∃ m, minOpt w.2 (some u) = some m ∧ m ≤ u := by
    intro u
    cases h1 : w.2 with
    | none => exact ⟨u, by simp [minOpt], le_rfl⟩
    | some n => exact ⟨min n u, by simp [minOpt], min_le_right _ _⟩
  constructor
  · intro q' hq' v hv
    rcases List.mem_append.mp hq' with hq' | hq'
    · obtain ⟨n, hn, hle⟩ := h.lo q' hq' v hv
      unfold tighten
      split
      · exact hmax n v hn hle _
      · exact hmax n v hn hle _
      · exact ⟨n, hn, hle⟩
      · exact ⟨n, hn, hle⟩
    · obtain rfl := List.mem_singleton.mp hq'
      unfold Qualifier.lower? at hv
      split at hv
      · obtain rfl := Option.some.inj hv; exact hself _
      · obtain rfl := Option.some.inj hv; exact hself _
      · exact absurd hv (by simp)
  · intro q' hq' v hv
    rcases List.mem_append.mp hq' with hq' | hq'
    · obtain ⟨n, hn, hle⟩ := h.hi q' hq' v hv
      unfold tighten
      split
      · exact ⟨n, hn, hle⟩
      · exact ⟨n, hn, hle⟩
      · exact hmin n v hn hle _
      · exact ⟨n, hn, hle⟩
    · obtain rfl := List.mem_singleton.mp hq'
      unfold Qualifier.upper? at hv
      split at hv
      · obtain rfl := Option.some.inj hv; exact hself' _
      · exact absurd hv (by simp)

theorem tightened_foldl : ∀ (qs done : List Qualifier) (w : Option ℕ × Option ℕ), Tightened w done →
    Tightened (qs.foldl tighten w) (done ++ qs)
  | [], done, w, h => by simpa using h
  | q :: qs, done, w, h => by
    have := tightened_foldl qs (done ++ [q]) _ (tightened_step h q)
    simpa using this

/-- **The window lies inside every bound of the filter.** -/
theorem resolvedSeqRange_tightened (qs : List Qualifier) :
    Tightened (resolvedSeqRange (some (.qualifiers qs))) qs := by
  have h0 : Tightened (none, none) [] := ⟨fun _ h => absurd h List.not_mem_nil, fun _ h => absurd h List.not_mem_nil⟩
  simpa [resolvedSeqRange] using tightened_foldl qs [] _ h0

theorem maxOpt_map_satAdd (a : Option ℕ) (v : ℕ) :
    (maxOpt a (some v)).map (satAdd · 1) = maxOpt (a.map (satAdd · 1)) (some (satAdd v 1)) := by
  cases a with
  | none => rfl
  | some a =>
    simp only [maxOpt, Option.map_some, Option.some.injEq]
    unfold satAdd
    omega

/-- The window's lower end is the strict lower bound made inclusive. -/
theorem resolvedSeqRange_fst (qs : List Qualifier) :
    (resolvedSeqRange (some (.qualifiers qs))).1 =
      (resolvedLowerBound (.qualifiers qs)).map (satAdd · 1) := by
  have key : ∀ (qs : List Qualifier) (w : Option ℕ × Option ℕ) (acc : Option ℕ),
      w.1 = acc.map (satAdd · 1) → (qs.foldl tighten w).1 =
        ((qs.filterMap Qualifier.lower?).foldl (fun acc v => maxOpt acc (some v)) acc).map (satAdd · 1) := by
    intro qs
    induction qs with
    | nil => intro w acc h; exact h
    | cons q qs ih =>
      intro w acc h
      rw [List.foldl_cons, List.filterMap_cons]
      unfold tighten Qualifier.lower?
      split
      · exact ih _ _ (by simp only [h, maxOpt_map_satAdd])
      · exact ih _ _ (by simp only [h, maxOpt_map_satAdd])
      · exact ih _ _ h
      · rename_i h1 h2 h3
        split
        · exact ih _ _ h
        · rename_i v hv
          split at hv
          · exact absurd rfl (h1 _)
          · exact absurd rfl (h2 _)
          · exact absurd hv (by simp)
  exact key qs (none, none) none rfl

/-- A window with a lower end and no eviction reported begins at or above the
floor. -/
theorem lostBelow_le_of_evicted_none {f : ParsedFilter} {lostBelow lo : ℕ}
    (hlo : (resolvedSeqRange (some f)).1 = some lo) (h : evictedBeforeWindow f lostBelow = none) :
    lostBelow ≤ lo := by
  cases f with
  | all => simp [resolvedSeqRange] at hlo
  | none => simp [resolvedSeqRange] at hlo
  | qualifiers qs =>
    rw [resolvedSeqRange_fst] at hlo
    obtain ⟨lb, hlb, rfl⟩ := Option.map_eq_some_iff.mp hlo
    unfold evictedBeforeWindow at h
    rw [hlb] at h
    simp only [evictedBelow, ite_eq_right_iff, reduceCtorEq, imp_false, not_lt] at h
    exact h

end Logmon
