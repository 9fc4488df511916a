/-
# Matching a log entry against a filter

`filter/matcher.rs` for logs. The regex engine and Unicode lowercasing are
parameters (`TextEnv`): no result here depends on what they compute.

A match reads an entry's text, level and seq, never why the ring kept it
(`matchesEntry_sameRecord`); and where a cursor in the filter stands does not
matter to an entry above it (`matchesEntry_atCursor_congr`).

Key definitions: `TextEnv`, `matchesEntry`, `matchesEntryPastCursor`,
`ParsedFilter.atCursor`, `filterAt`.
-/
import Logmon.Filter.Parser
import Mathlib.Data.List.Infix

namespace Logmon

open Lib

/-- The text operations of the regex crate and of `str::to_lowercase`. -/
structure TextEnv where
  toLowercase : String → String
  isMatch : (source : String) → (caseInsensitive : Bool) → (text : String) → Bool

/-- `str::contains`. -/
def containsStr (text sub : String) : Bool := decide (sub.toList <:+: text.toList)

/-- ASCII text, and regexes that are plain words. -/
def TextEnv.ascii : TextEnv where
  toLowercase := String.toLower
  isMatch source caseInsensitive text :=
    if caseInsensitive then containsStr text.toLower source.toLower else containsStr text source

variable (E : TextEnv)

def matchesPattern (p : Pattern) (text : String) : Bool :=
  match p with
  | .substring s => containsStr (E.toLowercase text) (E.toLowercase s)
  | .regex source ci => E.isMatch source ci text

/-- `map(..).unwrap_or(false)` on an optional text. -/
def matchesOpt (p : Pattern) : Option String → Bool
  | none => false
  | some t => matchesPattern E p t

def matchesAnyField (p : Pattern) (e : LogEntry) : Bool :=
  matchesPattern E p e.message || matchesOpt E p e.fullMessage || matchesPattern E p e.host ||
    matchesOpt E p e.facility || matchesOpt E p e.file || matchesOpt E p (e.line.map toString) ||
    e.additionalFields.any fun f => matchesPattern E p f.2.text

def matchesSelector (s : Selector) (p : Pattern) (e : LogEntry) : Bool :=
  match s with
  | .message => matchesPattern E p e.message
  | .fullMessage => matchesOpt E p e.fullMessage
  | .messageOrFull => matchesPattern E p e.message || matchesOpt E p e.fullMessage
  | .host => matchesPattern E p e.host
  | .facility => matchesOpt E p e.facility
  | .file => matchesOpt E p e.file
  | .line => matchesOpt E p (e.line.map toString)
  | .additionalField name => matchesOpt E p ((e.additionalFields.lookup name).map JsonValue.text)
  | .spanName => false
  | .serviceName => false
  | .spanStatus => false
  | .spanKind => false

def matchesLevel (op : LevelOp) (filterLevel entryLevel : Level) : Bool :=
  match op with
  | .eq => entryLevel = filterLevel
  | .gte => filterLevel.rank ≤ entryLevel.rank
  | .lte => entryLevel.rank ≤ filterLevel.rank

def matchesQualifier (q : Qualifier) (e : LogEntry) : Bool :=
  match q with
  | .barePattern p => matchesAnyField E p e
  | .selectorPattern s p => matchesSelector E s p e
  | .levelFilter op level => matchesLevel op level e.level
  | .durationFilter _ _ => false
  | .bookmarkFilter _ _ => false
  | .cursorFilter _ => false
  | .seqFilter .gt v => v < e.seq
  | .seqFilter .lt v => e.seq < v
  | .cursorSeq after => after < e.seq

def matchesEntry (f : ParsedFilter) (e : LogEntry) : Bool :=
  match f with
  | .all => true
  | .none => false
  | .qualifiers qs => qs.all fun q => matchesQualifier E q e

def Qualifier.isCursorSeq : Qualifier → Bool
  | .cursorSeq _ => true
  | _ => false

/-- `matchesEntry` with the cursor's own bound treated as passed. -/
def matchesEntryPastCursor (f : ParsedFilter) (e : LogEntry) : Bool :=
  match f with
  | .all => true
  | .none => false
  | .qualifiers qs => qs.all fun q => q.isCursorSeq || matchesQualifier E q e

/-- An absent filter matches everything. -/
def matchesOpt? (f : Option ParsedFilter) (e : LogEntry) : Bool :=
  match f with
  | none => true
  | some f => matchesEntry E f e

/-- An absent filter matches everything, past the cursor too. -/
def matchesPast? (f : Option ParsedFilter) (e : LogEntry) : Bool :=
  match f with
  | none => true
  | some f => matchesEntryPastCursor E f e

/-- A qualifier with the cursor it names resolved to the position `after`. -/
def Qualifier.atCursor (after : ℕ) : Qualifier → Qualifier
  | .cursorFilter _ => .cursorSeq after
  | q => q

/-- A parsed filter with its cursor resolved to the position `after`, as the
bookmark resolver does at each read. -/
def ParsedFilter.atCursor (after : ℕ) : ParsedFilter → ParsedFilter
  | .qualifiers qs => .qualifiers (qs.map (Qualifier.atCursor after))
  | f => f

/-! ### What a match depends on -/

variable {E}

theorem matchesQualifier_sameRecord {a b : LogEntry} (h : a.SameRecord b) (q : Qualifier) :
    matchesQualifier E q a = matchesQualifier E q b := by
  have hc : ∀ e : LogEntry, matchesQualifier E q e.core = matchesQualifier E q e := by
    intro e
    cases q <;> rfl
  rw [← hc a, ← hc b, show a.core = b.core from h]

/-- **A match does not read why an entry was kept.** -/
theorem matchesEntry_sameRecord {a b : LogEntry} (h : a.SameRecord b) (f : ParsedFilter) :
    matchesEntry E f a = matchesEntry E f b := by
  cases f with
  | all => rfl
  | none => rfl
  | qualifiers qs => simp only [matchesEntry, matchesQualifier_sameRecord h]

theorem matchesOpt_sameRecord {a b : LogEntry} (h : a.SameRecord b) (f : Option ParsedFilter) :
    matchesOpt? E f a = matchesOpt? E f b := by
  cases f with
  | none => rfl
  | some f => exact matchesEntry_sameRecord h f

/-- The window of a query has the seq of whatever the query matches. -/
theorem tighten_encloses {y : LogEntry} : ∀ (qs : List Qualifier) (w : Option ℕ × Option ℕ),
    (∀ n ∈ w.1, n ≤ y.seq) → (∀ n ∈ w.2, y.seq ≤ n) → (∀ q ∈ qs, matchesQualifier E q y = true) →
    (∀ n ∈ (qs.foldl tighten w).1, n ≤ y.seq) ∧ ∀ n ∈ (qs.foldl tighten w).2, y.seq ≤ n
  | [], _, hlo, hhi, _ => ⟨hlo, hhi⟩
  | q :: qs, w, hlo, hhi, hm => by
    have hq := hm q List.mem_cons_self
    have hmax : ∀ v, v < y.seq → ∀ n ∈ maxOpt w.1 (some (satAdd v 1)), n ≤ y.seq := by
      intro v hv n hn
      have hle := satAdd_one_le hv
      cases hw : w.1 with
      | none => simp_all [maxOpt]
      | some m =>
        have := hlo m hw
        simp only [hw, maxOpt, Option.mem_def, Option.some.injEq] at hn
        omega
    have hmin : ∀ v, y.seq < v → ∀ n ∈ minOpt w.2 (some (v - 1)), y.seq ≤ n := by
      intro v hv n hn
      cases hw : w.2 with
      | none =>
        simp only [hw, minOpt, Option.mem_def, Option.some.injEq] at hn
        omega
      | some m =>
        have := hhi m hw
        simp only [hw, minOpt, Option.mem_def, Option.some.injEq] at hn
        omega
    rw [List.foldl_cons]
    refine tighten_encloses qs _ ?_ ?_ fun q' hq' => hm q' (List.mem_cons_of_mem _ hq')
    · unfold tighten
      split
      · exact hmax _ (by simpa [matchesQualifier] using hq)
      · exact hmax _ (by simpa [matchesQualifier] using hq)
      · exact hlo
      · exact hlo
    · unfold tighten
      split
      · exact hhi
      · exact hhi
      · exact hmin _ (by simpa [matchesQualifier] using hq)
      · exact hhi

/-- **What a query matches lies in the query's window.** -/
theorem resolvedSeqRange_encloses {f : Option ParsedFilter} {y : LogEntry} (hm : matchesOpt? E f y = true) :
    (∀ n ∈ (resolvedSeqRange f).1, n ≤ y.seq) ∧ ∀ n ∈ (resolvedSeqRange f).2, y.seq ≤ n := by
  cases f with
  | none => simp [resolvedSeqRange]
  | some f =>
    cases f with
    | all => simp [resolvedSeqRange]
    | none => simp [resolvedSeqRange]
    | qualifiers qs => exact tighten_encloses qs (none, none) (by simp) (by simp) (List.all_eq_true.mp hm)

/-- Above both positions, it does not matter where a cursor in the filter
stands. -/
theorem matchesEntry_atCursor_congr (f : ParsedFilter) {a b : ℕ} {e : LogEntry} (ha : a < e.seq) (hb : b < e.seq) :
    matchesEntry E (f.atCursor a) e = matchesEntry E (f.atCursor b) e := by
  cases f with
  | all => rfl
  | none => rfl
  | qualifiers qs =>
    simp only [ParsedFilter.atCursor, matchesEntry, List.all_map]
    congr 1
    funext q
    cases q with
    | cursorFilter name => simp [Qualifier.atCursor, matchesQualifier, ha, hb]
    | _ => rfl

/-- What matches with its cursor anywhere matches with the cursor passed
over. -/
theorem matchesPast_of_matchesEntry {f : ParsedFilter} {a : ℕ} (b : ℕ) {e : LogEntry}
    (h : matchesEntry E (f.atCursor a) e = true) : matchesEntryPastCursor E (f.atCursor b) e = true := by
  cases f with
  | all => rfl
  | none => exact h
  | qualifiers qs =>
    simp only [ParsedFilter.atCursor, matchesEntry, matchesEntryPastCursor, List.all_map, List.all_eq_true,
      Function.comp] at h ⊢
    intro q hq
    have hm := h q hq
    cases q with
    | cursorFilter name => rfl
    | _ =>
      simp only [Qualifier.atCursor] at hm ⊢
      rw [hm, Bool.or_true]

/-- A fixed filter as a read of a cursor at `after` gets it. -/
def filterAt (f : Option ParsedFilter) (after : ℕ) : Option ParsedFilter := f.map (ParsedFilter.atCursor after)

theorem matchesOpt_filterAt_congr (f : Option ParsedFilter) {a b : ℕ} {e : LogEntry} (ha : a < e.seq)
    (hb : b < e.seq) : matchesOpt? E (filterAt f a) e = matchesOpt? E (filterAt f b) e := by
  cases f with
  | none => rfl
  | some f => exact matchesEntry_atCursor_congr f ha hb

theorem matchesPast_of_matchesOpt {f : Option ParsedFilter} {a : ℕ} (b : ℕ) {e : LogEntry}
    (h : matchesOpt? E (filterAt f a) e = true) : matchesPast? E (filterAt f b) e = true := by
  cases f with
  | none => rfl
  | some f => exact matchesPast_of_matchesEntry b h

end Logmon
