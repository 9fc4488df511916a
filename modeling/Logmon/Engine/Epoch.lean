/-
# The epoch log

`engine/epoch.rs`: which filters were narrowing a domain's storage, over its
seq axis, and what can be said of a seq range from it. An epoch is a policy
and the first seq decided under it; the log keeps the last `epochCapacity` of
them, in order (`EpochLog.ordered`).

A seq is dark when a filtered policy governs it, or when the epoch that did is
no longer kept. Every entry a filtered policy decides is dark at once and
stays so (`EpochLog.dark_observe_self`, `EpochLog.Dark.observe`), and a range
with a dark seq in it is never reported as covered and unnarrowed
(`EpochLog.not_dark_of_coverage`).

Key definitions: `FilterPolicy`, `EpochLog`, `EpochLog.observe`,
`EpochLog.coverage`, `evidenceVerdict`, `EpochLog.Dark`, `EpochLog.observeAll`.
-/
import Logmon.Lib.Pieces
import Logmon.Lib.Word
import Mathlib.Data.List.Destutter
import Mathlib.Data.List.Sort

namespace Logmon

open Lib

/-- Epochs kept per domain. -/
def epochCapacity : ℕ := 1024

/-- The union of every filter string held by a session bound to the domain. -/
structure FilterPolicy where
  filters : List String
  deriving DecidableEq

namespace FilterPolicy

/-- Sorted and deduplicated. -/
def new (filters : List String) : FilterPolicy := ⟨(filters.insertionSort (· ≤ ·)).destutter (· ≠ ·)⟩

def isFiltered (p : FilterPolicy) : Bool := !p.filters.isEmpty

theorem isFiltered_new (filters : List String) : (new filters).isFiltered = !filters.isEmpty := by
  have hnil : (filters.insertionSort (· ≤ ·)).destutter (· ≠ ·) = [] ↔ filters = [] := by
    rw [List.destutter_eq_nil]
    exact ⟨fun h => List.length_eq_zero_iff.mp (by rw [← List.length_insertionSort (· ≤ ·), h]; rfl),
      fun h => by rw [h]; rfl⟩
  unfold isFiltered new
  rw [Bool.eq_iff_iff]
  simp [hnil]

end FilterPolicy

/-- The policy, and the first seq decided under it. -/
structure Epoch where
  seqAtFlip : ℕ
  policy : FilterPolicy
  deriving DecidableEq

/-- A stretch of a queried range over which storage was narrowed. -/
structure NarrowedSpan where
  fromSeq : ℕ
  toSeq : ℕ
  filters : List String
  deriving DecidableEq

/-- What the log can say about one range. -/
structure EpochCoverage where
  covered : Bool
  narrowed : List NarrowedSpan
  deriving DecidableEq

/-- A domain's epochs, oldest first. -/
structure EpochLog where
  epochs : List Epoch
  /-- The seq this incarnation started from. -/
  originSeq : ℕ
  ordered : epochs.Pairwise fun a b => a.seqAtFlip ≤ b.seqAtFlip

/-- `while log.len() > max { log.pop_front(); }`. -/
def trimFront {α : Type} (max : ℕ) : List α → List α
  | [] => []
  | a :: l => if (a :: l).length > max then trimFront max l else a :: l

theorem trimFront_eq_drop {α : Type} (max : ℕ) : ∀ l : List α, trimFront max l = l.drop (l.length - max)
  | [] => by simp [trimFront]
  | a :: l => by
    unfold trimFront
    split
    · rename_i h
      rw [trimFront_eq_drop max l, show (a :: l).length - max = l.length - max + 1 by simp at h ⊢; omega,
        List.drop_succ_cons]
    · rename_i h
      rw [show (a :: l).length - max = 0 by omega, List.drop_zero]

namespace EpochLog

def new (originSeq : ℕ) : EpochLog := ⟨[], originSeq, .nil⟩

/-- Where an epoch opened at `seq` begins: never below the one before it, and
the first at the origin. -/
def flipFor (l : EpochLog) (seq : ℕ) : ℕ :=
  match l.epochs.getLast? with
  | some last => max seq last.seqAtFlip
  | none => l.originSeq

/-- The epochs with the new one. -/
def pushed (l : EpochLog) (seq : ℕ) (policy : FilterPolicy) : List Epoch := l.epochs ++ [⟨l.flipFor seq, policy⟩]

theorem ordered_push (l : EpochLog) (seq : ℕ) (policy : FilterPolicy) :
    (l.pushed seq policy).Pairwise fun a b => a.seqAtFlip ≤ b.seqAtFlip := by
  refine List.pairwise_append.mpr ⟨l.ordered, List.pairwise_singleton _ _, fun a ha b hb => ?_⟩
  obtain rfl := List.mem_singleton.mp hb
  show a.seqAtFlip ≤ l.flipFor seq
  unfold flipFor
  cases hlast : l.epochs.getLast? with
  | none => simp [List.getLast?_eq_none_iff.mp hlast] at ha
  | some last =>
    obtain ⟨before, hsplit⟩ := List.getLast?_eq_some_iff.mp hlast
    have hle : a.seqAtFlip ≤ last.seqAtFlip := by
      rw [hsplit] at ha
      rcases List.mem_append.mp ha with ha | ha
      · have hord := l.ordered
        rw [hsplit] at hord
        exact (List.pairwise_append.mp hord).2.2 a ha last List.mem_cons_self
      · rw [List.mem_singleton.mp ha]
    exact le_trans hle (le_max_right _ _)

/-- `seq` was decided under `policy`: open a new epoch if it differs from the
one in force. -/
def observe (l : EpochLog) (seq : ℕ) (policy : FilterPolicy) : EpochLog :=
  if l.epochs.getLast?.any (fun e => e.policy = policy) then l
  else
    { epochs := trimFront epochCapacity (l.pushed seq policy)
      originSeq := l.originSeq
      ordered := by
        rw [trimFront_eq_drop]
        exact (l.ordered_push seq policy).drop }

/-- An epoch runs until the next one begins, and the last for good. -/
def epochEnd (later : List Epoch) : ℕ :=
  match later.head? with
  | some next => next.seqAtFlip - 1
  | none => u64Max

/-- The narrowed stretches of `fromSeq..=toSeq`. -/
def narrowedSpans (fromSeq toSeq : ℕ) : List Epoch → List NarrowedSpan
  | [] => []
  | e :: rest =>
    if e.seqAtFlip > toSeq ∨ epochEnd rest < fromSeq then narrowedSpans fromSeq toSeq rest
    else if e.policy.isFiltered then
      ⟨max e.seqAtFlip fromSeq, min (epochEnd rest) toSeq, e.policy.filters⟩ :: narrowedSpans fromSeq toSeq rest
    else narrowedSpans fromSeq toSeq rest

/-- What the log can say about the inclusive range `fromSeq..=toSeq`. -/
def coverage (l : EpochLog) (fromSeq toSeq : ℕ) : EpochCoverage :=
  match l.epochs.head? with
  | none => ⟨false, []⟩
  | some first => ⟨fromSeq ≥ first.seqAtFlip, narrowedSpans fromSeq toSeq l.epochs⟩

end EpochLog

inductive EvidenceVerdict
  | complete
  | filtered
  | evicted
  | cannotVerify
  deriving DecidableEq

/-- The strongest reason a range is not complete. -/
def evidenceVerdict (coverage : Option EpochCoverage) (evicted capped : Bool) : EvidenceVerdict :=
  match coverage with
  | none => .cannotVerify
  | some coverage =>
    if !coverage.covered || capped then .cannotVerify
    else if !coverage.narrowed.isEmpty then .filtered
    else if evicted then .evicted
    else .complete

theorem evidenceVerdict_complete {coverage : Option EpochCoverage} {evicted capped : Bool}
    (h : evidenceVerdict coverage evicted capped = .complete) :
    ∃ c, coverage = some c ∧ c.covered = true ∧ c.narrowed = [] ∧ evicted = false ∧ capped = false := by
  unfold evidenceVerdict at h
  split at h
  · simp at h
  · rename_i c
    split at h
    · simp at h
    · rename_i hcov
      split at h
      · simp at h
      · rename_i hnarrow
        split at h
        · simp at h
        · rename_i hev
          obtain ⟨h1, h2⟩ : c.covered = true ∧ capped = false := by simpa using hcov
          exact ⟨c, rfl, h1, by simpa using hnarrow, by simpa using hev, h2⟩

namespace EpochLog

/-! ### Dark seqs -/

/-- A filtered policy governs the seq, or the epoch that governed it is gone. -/
def Dark (l : EpochLog) (seq : ℕ) : Prop :=
  Precedes Epoch.seqAtFlip l.epochs seq ∨
    ∃ e, Governs Epoch.seqAtFlip l.epochs e seq ∧ e.policy.isFiltered = true

/-- The epochs kept begin at or below `n`. -/
def Upto (l : EpochLog) (n : ℕ) : Prop := l.originSeq ≤ n ∧ ∀ e ∈ l.epochs, e.seqAtFlip ≤ n

theorem Upto.mono {l : EpochLog} {m n : ℕ} (h : l.Upto m) (hmn : m ≤ n) : l.Upto n :=
  ⟨le_trans h.1 hmn, fun e he => le_trans (h.2 e he) hmn⟩

variable {l : EpochLog} {n seq : ℕ} {policy : FilterPolicy}

theorem observe_cases (l : EpochLog) (seq : ℕ) (policy : FilterPolicy) :
    (l.observe seq policy = l ∧ ∃ e, l.epochs.getLast? = some e ∧ e.policy = policy) ∨
      ((l.observe seq policy).epochs = (l.pushed seq policy).drop ((l.pushed seq policy).length - epochCapacity) ∧
        (l.observe seq policy).originSeq = l.originSeq) := by
  unfold observe
  split
  · rename_i h
    exact .inl ⟨rfl, by simpa [Option.any_eq_true] using h⟩
  · exact .inr ⟨trimFront_eq_drop _ _, rfl⟩

theorem flipFor_le (h : l.Upto n) (hle : seq ≤ n) : l.flipFor seq ≤ n := by
  unfold flipFor
  split
  · rename_i last hlast
    exact max_le hle (h.2 last (List.mem_of_getLast? hlast))
  · exact h.1

theorem le_flipFor (seq : ℕ) (h : l.epochs ≠ []) : seq ≤ l.flipFor seq := by
  unfold flipFor
  split
  · exact le_max_left _ _
  · rename_i hnone
    exact absurd (List.getLast?_eq_none_iff.mp hnone) h

theorem Upto.observe_le (h : l.Upto n) (hle : seq ≤ n) : (l.observe seq policy).Upto n := by
  rcases l.observe_cases seq policy with ⟨hsame, _⟩ | ⟨heps, horigin⟩
  · rw [hsame]
    exact h
  · refine ⟨by rw [horigin]; exact h.1, fun e he => ?_⟩
    rw [heps] at he
    rcases List.mem_append.mp (List.mem_of_mem_drop he) with he | he
    · exact h.2 e he
    · rw [List.mem_singleton.mp he]
      exact flipFor_le h hle

theorem Upto.observe (h : l.Upto seq) : (l.observe seq policy).Upto seq := h.observe_le le_rfl

/-- Keeping only the last epochs leaves at least the last. -/
theorem drop_lt_length (l : EpochLog) (seq : ℕ) (policy : FilterPolicy) :
    (l.pushed seq policy).length - epochCapacity < (l.pushed seq policy).length := by
  have : 0 < (l.pushed seq policy).length := by simp [pushed]
  unfold epochCapacity
  omega

/-- A filtered policy darkens every seq from the one it decides on. -/
theorem dark_observe_le (h : l.Upto n) (hle : seq ≤ n) (hf : policy.isFiltered = true) :
    (l.observe seq policy).Dark n := by
  rcases l.observe_cases seq policy with ⟨hsame, e, he, rfl⟩ | ⟨heps, _⟩
  · rw [hsame]
    exact .inr ⟨e, governs_last he (h.2 e (List.mem_of_getLast? he)), hf⟩
  · refine .inr ⟨⟨l.flipFor seq, policy⟩, ?_, hf⟩
    rw [heps]
    refine governs_last ?_ (flipFor_le h hle)
    rw [List.getLast?_drop, if_neg (by have := l.drop_lt_length seq policy; omega)]
    simp [pushed]

/-- **What a filtered policy decides is dark at once.** -/
theorem dark_observe_self (h : l.Upto seq) (hf : policy.isFiltered = true) : (l.observe seq policy).Dark seq :=
  dark_observe_le h le_rfl hf

/-- **And stays dark**, however many epochs later decisions open. -/
theorem Dark.observe (h : l.Dark n) (hn : n < seq) : (l.observe seq policy).Dark n := by
  rcases l.observe_cases seq policy with ⟨hsame, _⟩ | ⟨heps, _⟩
  · rw [hsame]
    exact h
  have hne : l.epochs ≠ [] := by
    rcases h with ⟨a, ha, _⟩ | ⟨e, ⟨before, after, hsplit, _⟩, _⟩
    · intro hnil
      simp [hnil] at ha
    · simp [hsplit]
  have hflip : n < l.flipFor seq := Nat.lt_of_lt_of_le hn (le_flipFor seq hne)
  have hlt := l.drop_lt_length seq policy
  unfold Dark
  rw [heps]
  rcases h with hp | ⟨e, hg, hf⟩
  · exact .inl ((hp.append _).drop (l.ordered_push seq policy) hlt)
  · have hg' : Governs Epoch.seqAtFlip (l.pushed seq policy) e n := hg.append hflip
    exact (hg'.drop (l.ordered_push seq policy) hlt).imp_right fun hg => ⟨e, hg, hf⟩

/-- A filtered epoch is reported in every range that has a seq it governs. -/
theorem narrowedSpans_ne_nil {fromSeq toSeq : ℕ} {e : Epoch} (hfrom : fromSeq ≤ n) (hto : n ≤ toSeq)
    (hmax : n ≤ u64Max) (hf : e.policy.isFiltered = true) : ∀ {es : List Epoch},
    Governs Epoch.seqAtFlip es e n → narrowedSpans fromSeq toSeq es ≠ []
  | [], ⟨before, after, hsplit, _⟩ => by simp at hsplit
  | a :: es, ⟨before, after, hsplit, hstart, hafter⟩ => by
    cases before with
    | nil =>
      -- the governing epoch itself: it meets the range at `n`
      simp only [List.nil_append, List.cons.injEq] at hsplit
      obtain ⟨rfl, rfl⟩ := hsplit
      have hend : n ≤ epochEnd es := by
        unfold epochEnd
        cases hnext : es.head? with
        | none => exact hmax
        | some next =>
          have := hafter next hnext
          simp only
          omega
      unfold narrowedSpans
      rw [if_neg (by omega), if_pos hf]
      simp
    | cons b before =>
      simp only [List.cons_append, List.cons.injEq] at hsplit
      have ih := narrowedSpans_ne_nil hfrom hto hmax hf ⟨before, after, hsplit.2, hstart, hafter⟩
      unfold narrowedSpans
      split
      · exact ih
      · split
        · simp
        · exact ih

/-- **A range with a dark seq in it is not covered and unnarrowed.** -/
theorem not_dark_of_coverage {fromSeq toSeq : ℕ} (hcov : (l.coverage fromSeq toSeq).covered = true)
    (hnarrow : (l.coverage fromSeq toSeq).narrowed = []) (hfrom : fromSeq ≤ n) (hto : n ≤ toSeq)
    (hmax : n ≤ u64Max) : ¬ l.Dark n := by
  unfold coverage at hcov hnarrow
  split at hcov
  · simp at hcov
  rename_i first hfirst
  rw [hfirst] at hnarrow
  have hle : first.seqAtFlip ≤ fromSeq := by simpa using hcov
  intro hdark
  rcases hdark with ⟨a, ha, hlt⟩ | ⟨e, hg, hf⟩
  · obtain rfl : first = a := by simpa [hfirst] using ha
    omega
  · exact narrowedSpans_ne_nil hfrom hto hmax hf hg hnarrow

/-! ### Many decisions -/

/-- The decisions, one after the other. -/
def observeAll (l : EpochLog) (ts : List (ℕ × FilterPolicy)) : EpochLog := ts.foldl (fun l t => l.observe t.1 t.2) l

theorem observeAll_append (l : EpochLog) (ts us : List (ℕ × FilterPolicy)) :
    l.observeAll (ts ++ us) = (l.observeAll ts).observeAll us := List.foldl_append

variable {x : ℕ}

/-- The epochs kept begin at `x` or above. -/
def From (l : EpochLog) (x : ℕ) : Prop := l.epochs ≠ [] ∧ ∀ e ∈ l.epochs, x ≤ e.seqAtFlip

theorem From.observe (h : l.From x) (seq : ℕ) (policy : FilterPolicy) : (l.observe seq policy).From x := by
  obtain ⟨hne, hall⟩ := h
  have hflip : x ≤ l.flipFor seq := by
    obtain ⟨last, hlast⟩ := Option.isSome_iff_exists.mp (List.getLast?_isSome.mpr hne)
    unfold flipFor
    rw [hlast]
    exact le_trans (hall last (List.mem_of_getLast? hlast)) (le_max_right _ _)
  rcases l.observe_cases seq policy with ⟨hsame, _⟩ | ⟨heps, _⟩
  · rw [hsame]
    exact ⟨hne, hall⟩
  · have hlt := l.drop_lt_length seq policy
    refine ⟨?_, fun e he => ?_⟩
    · rw [heps]
      exact List.drop_eq_nil_iff.not.mpr (by omega)
    · rw [heps] at he
      rcases List.mem_append.mp (List.mem_of_mem_drop he) with he | he
      · exact hall e he
      · rw [List.mem_singleton.mp he]
        exact hflip

/-- What the epochs begin above is dark. -/
theorem From.dark {n : ℕ} (h : l.From x) (hn : n < x) : l.Dark n := by
  obtain ⟨first, hfirst⟩ := Option.isSome_iff_exists.mp (List.isSome_head?.mpr h.1)
  exact .inl ⟨first, hfirst, Nat.lt_of_lt_of_le hn (h.2 first (List.mem_of_mem_head? hfirst))⟩

theorem From.observeAll (h : l.From x) (ts : List (ℕ × FilterPolicy)) : (l.observeAll ts).From x := by
  induction ts generalizing l with
  | nil => exact h
  | cons t ts ih => exact ih (h.observe t.1 t.2)

theorem Upto.observeAll (h : l.Upto x) {ts : List (ℕ × FilterPolicy)} (hts : ∀ t ∈ ts, t.1 ≤ x) :
    (l.observeAll ts).Upto x := by
  induction ts generalizing l with
  | nil => exact h
  | cons t ts ih =>
    exact ih (h.observe_le (hts t List.mem_cons_self)) fun u hu => hts u (List.mem_cons_of_mem _ hu)

theorem Dark.observeAll (h : l.Dark x) {ts : List (ℕ × FilterPolicy)} (hts : ∀ t ∈ ts, x < t.1) :
    (l.observeAll ts).Dark x := by
  induction ts generalizing l with
  | nil => exact h
  | cons t ts ih =>
    exact ih (h.observe (hts t List.mem_cons_self)) fun u hu => hts u (List.mem_cons_of_mem _ hu)

end EpochLog

end Logmon
