/-
# The window that is judged is the window that is matched

A query's seq bounds are written into its filter as strict bounds
(`lower_seq_range` of `daemon/rpc_handler.rs`), read back out of it as an
inclusive window (`resolved_seq_range`), matched entry by entry
(`matches_entry`), and compared with the loss floor (`evicted_before_window`).
Each of them moves a bound by one, and each saturates; on the seqs an entry can
have, from 1 to below `u64::MAX`, they all mean the same window
(`judged_window_is_matched`).

Key definitions: `seqBounds`, `InWindow`.
Key theorems: `inWindow_tighten`, `inWindow_resolvedSeqRange`,
`judged_window_is_matched`.
-/
import Logmon.Daemon.Export

namespace Logmon

open Lib

/-- Whether the qualifier bounds the seq. -/
def Qualifier.isSeqBound : Qualifier → Bool
  | .seqFilter _ _ => true
  | .cursorSeq _ => true
  | _ => false

/-- The seq bounds of a filter, an absent one having none. -/
def seqBounds : Option ParsedFilter → List Qualifier
  | some (.qualifiers qs) => qs.filter Qualifier.isSeqBound
  | _ => []

/-- `n` lies in an inclusive window, an end that is missing bounding nothing. -/
def InWindow (w : Option ℕ × Option ℕ) (n : ℕ) : Prop := (∀ lo ∈ w.1, lo ≤ n) ∧ ∀ hi ∈ w.2, n ≤ hi

theorem forall_mem_maxOpt {a : Option ℕ} {v n : ℕ} :
    (∀ m ∈ maxOpt a (some v), m ≤ n) ↔ (∀ m ∈ a, m ≤ n) ∧ v ≤ n := by
  cases a with
  | none => simp [maxOpt]
  | some a => simp [maxOpt]

theorem forall_mem_minOpt {a : Option ℕ} {v n : ℕ} :
    (∀ m ∈ minOpt a (some v), n ≤ m) ↔ (∀ m ∈ a, n ≤ m) ∧ n ≤ v := by
  cases a with
  | none => simp [minOpt]
  | some a => simp [minOpt]

variable {E : TextEnv} {e : LogEntry}

/-- A strict lower bound made inclusive, on the seqs below the top. -/
theorem satAdd_le_seq_iff (hmax : e.seq < u64Max) (v : ℕ) : satAdd v 1 ≤ e.seq ↔ v < e.seq := by
  unfold satAdd
  omega

/-- A strict upper bound made inclusive, on the seqs above zero. -/
theorem seq_le_sub_iff (hpos : 1 ≤ e.seq) (v : ℕ) : e.seq ≤ v - 1 ↔ e.seq < v := by omega

/-- One turn of the loop takes the qualifier's bound into the window. -/
theorem inWindow_tighten (hpos : 1 ≤ e.seq) (hmax : e.seq < u64Max) (w : Option ℕ × Option ℕ) (q : Qualifier) :
    InWindow (tighten w q) e.seq ↔ InWindow w e.seq ∧ (q.isSeqBound = true → matchesQualifier E q e = true) := by
  unfold InWindow
  cases q with
  | seqFilter op v =>
    cases op with
    | gt =>
      simp only [tighten, forall_mem_maxOpt, satAdd_le_seq_iff hmax, Qualifier.isSeqBound, matchesQualifier,
        decide_eq_true_eq, true_imp_iff]
      tauto
    | lt =>
      simp only [tighten, forall_mem_minOpt, seq_le_sub_iff hpos, Qualifier.isSeqBound, matchesQualifier,
        decide_eq_true_eq, true_imp_iff]
      tauto
  | cursorSeq after =>
    simp only [tighten, forall_mem_maxOpt, satAdd_le_seq_iff hmax, Qualifier.isSeqBound, matchesQualifier,
      decide_eq_true_eq, true_imp_iff]
    tauto
  | _ => simp [tighten, Qualifier.isSeqBound]

theorem inWindow_foldl (hpos : 1 ≤ e.seq) (hmax : e.seq < u64Max) (qs : List Qualifier) (w : Option ℕ × Option ℕ) :
    InWindow (qs.foldl tighten w) e.seq ↔
      InWindow w e.seq ∧ ∀ q ∈ qs, q.isSeqBound = true → matchesQualifier E q e = true := by
  induction qs generalizing w with
  | nil => simp
  | cons q qs ih =>
    rw [List.foldl_cons, ih, @inWindow_tighten E e hpos hmax, List.forall_mem_cons, and_assoc]

/-- **The window of a filter has the seqs that satisfy all its bounds.** -/
theorem inWindow_resolvedSeqRange (hpos : 1 ≤ e.seq) (hmax : e.seq < u64Max) (f : Option ParsedFilter) :
    InWindow (resolvedSeqRange f) e.seq ↔ ∀ q ∈ seqBounds f, matchesQualifier E q e = true := by
  have hopen : InWindow (none, none) e.seq := ⟨fun _ h => (nomatch h), fun _ h => (nomatch h)⟩
  match f with
  | none => simpa [resolvedSeqRange, seqBounds] using hopen
  | some .all => simpa [resolvedSeqRange, seqBounds] using hopen
  | some .none => simpa [resolvedSeqRange, seqBounds] using hopen
  | some (.qualifiers qs) =>
    show InWindow (qs.foldl tighten (none, none)) e.seq ↔ _
    rw [@inWindow_foldl E e hpos hmax, and_iff_right hopen]
    simp [seqBounds, List.mem_filter]

/-- The lowered bounds match the seqs of the range. -/
theorem matches_rangeBounds (hpos : 1 ≤ e.seq) (hmax : e.seq < u64Max) (fromSeq toSeq : Option ℕ) :
    ((rangeBounds fromSeq toSeq).all fun q => matchesQualifier E q e) = true ↔ InWindow (fromSeq, toSeq) e.seq := by
  have hlow : ∀ n, n - 1 < e.seq ↔ n ≤ e.seq := by omega
  have hhigh : ∀ n, e.seq < satAdd n 1 ↔ e.seq ≤ n := by
    intro n
    unfold satAdd
    omega
  unfold rangeBounds InWindow
  cases fromSeq <;> cases toSeq <;> simp [matchesQualifier, hlow, hhigh]

/-- **Lowering a range into a filter adds the range to what it asks.** -/
theorem matches_lowerSeqRange (hpos : 1 ≤ e.seq) (hmax : e.seq < u64Max) (resolved : Option ParsedFilter)
    (fromSeq toSeq : Option ℕ) :
    matchesOpt? E (lowerSeqRange resolved fromSeq toSeq) e = true ↔
      matchesOpt? E resolved e = true ∧ InWindow (fromSeq, toSeq) e.seq := by
  have hrange := @matches_rangeBounds E e hpos hmax fromSeq toSeq
  unfold lowerSeqRange
  by_cases hnone : (fromSeq.isNone && toSeq.isNone) = true
  · rw [if_pos hnone]
    obtain ⟨rfl, rfl⟩ : fromSeq = none ∧ toSeq = none := by simpa using hnone
    exact (and_iff_left ⟨fun _ h => (nomatch h), fun _ h => (nomatch h)⟩).symm
  · rw [if_neg hnone, ← hrange]
    match resolved with
    | none => simp [matchesOpt?, matchesEntry]
    | some .all => simp [matchesOpt?, matchesEntry]
    | some .none => simp [matchesOpt?, matchesEntry]
    | some (.qualifiers qs) => simp only [matchesOpt?, matchesEntry, List.all_append, Bool.and_eq_true]

/-- The gap before a window: what the floor is above its lower end. -/
theorem evictedBeforeWindow_eq_some_iff (f : ParsedFilter) (lostBelow gap : ℕ) :
    evictedBeforeWindow f lostBelow = some gap ↔
      ∃ lo, (resolvedSeqRange (some f)).1 = some lo ∧ lo < lostBelow ∧ gap = lostBelow - lo := by
  have hlow : (resolvedSeqRange (some f)).1 = (resolvedLowerBound f).map (satAdd · 1) := by
    cases f with
    | qualifiers qs => exact resolvedSeqRange_fst qs
    | _ => rfl
  unfold evictedBeforeWindow
  rw [hlow]
  cases resolvedLowerBound f with
  | none => simp
  | some lb =>
    simp only [evictedBelow, Option.map_some, Option.some.injEq, exists_eq_left', Option.ite_none_right_eq_some]
    exact and_congr_right fun _ => eq_comm

/-- **The judged window is the matched window.** After a range is lowered into
a filter, the entry satisfies every seq bound exactly when its seq lies in the
resolved window; the lowered filter matches what the filter matched and the
range has; and a gap is reported exactly when the window's lower end is below
the floor, as the distance between the two. -/
theorem judged_window_is_matched (E : TextEnv) (resolved : Option ParsedFilter) (fromSeq toSeq : Option ℕ)
    (e : LogEntry) (hpos : 1 ≤ e.seq) (hmax : e.seq < u64Max) :
    ((∀ q ∈ seqBounds (lowerSeqRange resolved fromSeq toSeq), matchesQualifier E q e = true) ↔
        InWindow (resolvedSeqRange (lowerSeqRange resolved fromSeq toSeq)) e.seq) ∧
      (matchesOpt? E (lowerSeqRange resolved fromSeq toSeq) e = true ↔
        matchesOpt? E resolved e = true ∧ (∀ lo ∈ fromSeq, lo ≤ e.seq) ∧ ∀ hi ∈ toSeq, e.seq ≤ hi) ∧
      ∀ f ∈ lowerSeqRange resolved fromSeq toSeq, ∀ lostBelow gap,
        evictedBeforeWindow f lostBelow = some gap ↔
          ∃ lo, (resolvedSeqRange (lowerSeqRange resolved fromSeq toSeq)).1 = some lo ∧ lo < lostBelow ∧
            gap = lostBelow - lo := by
  refine ⟨(inWindow_resolvedSeqRange hpos hmax _).symm, matches_lowerSeqRange hpos hmax _ _ _, ?_⟩
  intro f hf lostBelow gap
  rw [Option.mem_def] at hf
  rw [hf]
  exact evictedBeforeWindow_eq_some_iff f lostBelow gap

theorem judged_window_past_a_cursor :
    InWindow (resolvedSeqRange
      (lowerSeqRange (some (.qualifiers [.cursorSeq 2, .seqFilter .lt 8])) (some 4) (some 9))) 5 :=
  (judged_window_is_matched .ascii (some (.qualifiers [.cursorSeq 2, .seqFilter .lt 8])) (some 4) (some 9)
    (.blank 5) (by decide) (by decide)).1.mp (by decide)

end Logmon
