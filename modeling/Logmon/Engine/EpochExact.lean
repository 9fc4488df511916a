/-
# What the epoch log answers

`EpochLog.coverage` against the decisions themselves: which policy the last
decision at or below a seq was made under, and the log that drops no epoch.

An epoch may be empty: a policy that is replaced at the very seq its epoch
began at decided nothing that is left to it. `coverage` reports such a
filtered epoch all the same, as a stretch that ends before it starts, and at
seq 0, where the subtraction saturates, as a stretch of one seq that another
policy decided. Where no filtered policy is replaced so, and only there, the
log answers exactly in every state it goes through (`answers_exactly_iff`).

Key definitions: `policyAt`, `AnswersExactly`, `NeverEmptied`,
`EpochLog.observeKept`.
Key theorems: `stretches_of_spaced`, `mem_narrowedSpans_iff`,
`kept_observeAll`, `answers_exactly_iff`.
-/
import Logmon.Engine.Epoch

namespace Logmon

open Lib

/-- The policy of the last decision at or below `q`, and of the first for a
seq below them all. -/
def policyAt (decisions : List (ℕ × FilterPolicy)) (q : ℕ) : Option FilterPolicy :=
  match lastUpTo Prod.fst decisions q with
  | some decision => some decision.2
  | none => decisions.head?.map Prod.snd

namespace EpochLog

/-- `observe` on a log that drops nothing. -/
def observeKept (l : EpochLog) (seq : ℕ) (policy : FilterPolicy) : EpochLog :=
  if l.epochs.getLast?.any (fun e => e.policy = policy) then l
  else { epochs := l.pushed seq policy, originSeq := l.originSeq, ordered := l.ordered_push seq policy }

def observeAllKept (l : EpochLog) (ts : List (ℕ × FilterPolicy)) : EpochLog :=
  ts.foldl (fun l t => l.observeKept t.1 t.2) l

end EpochLog

/-- The seq is one of the stretch. -/
def NarrowedSpan.Has (s : NarrowedSpan) (q : ℕ) : Prop := s.fromSeq ≤ q ∧ q ≤ s.toSeq

/-- Stretches of `fromSeq..=toSeq`: none ends before it starts, and each ends
before the next starts. -/
structure Stretches (fromSeq toSeq : ℕ) (spans : List NarrowedSpan) : Prop where
  inside : ∀ s ∈ spans, fromSeq ≤ s.fromSeq ∧ s.fromSeq ≤ s.toSeq ∧ s.toSeq ≤ toSeq
  ascending : spans.Pairwise fun s t => s.toSeq < t.fromSeq

/-- The log's answers after the decisions, for every range: the stretches are
stretches of it; a covered range has a seq in a stretch of the filters `F`
exactly when `F` is what it was decided under; and a covered range is answered
as by the log that dropped nothing. -/
def AnswersExactly (origin : ℕ) (decisions : List (ℕ × FilterPolicy)) : Prop :=
  ∀ fromSeq toSeq, fromSeq ≤ toSeq → toSeq ≤ u64Max →
    let answer := ((EpochLog.new origin).observeAll decisions).coverage fromSeq toSeq
    Stretches fromSeq toSeq answer.narrowed ∧
      (answer.covered = true → ∀ q, fromSeq ≤ q → q ≤ toSeq → ∀ F,
        (∃ s ∈ answer.narrowed, s.Has q ∧ s.filters = F) ↔
          ∃ p, policyAt decisions q = some p ∧ p.filters = F ∧ F ≠ []) ∧
      (answer.covered = true → ((EpochLog.new origin).observeAllKept decisions).coverage fromSeq toSeq = answer)

/-- Of the decisions after `policy` came into force at `start`: a filtered
policy gives way only at a later seq than it came into force at. -/
def NotEmptied (start : ℕ) (policy : FilterPolicy) : List (ℕ × FilterPolicy) → Prop
  | [] => True
  | (seq, p) :: later =>
    if p = policy then NotEmptied start policy later
    else (policy.isFiltered = true → start < seq) ∧ NotEmptied (max seq start) p later

/-- No filtered policy gives way at the seq it came into force at, the first
one being in force from the origin. -/
def NeverEmptied (origin : ℕ) : List (ℕ × FilterPolicy) → Prop
  | [] => True
  | (_, p) :: later => NotEmptied origin p later

/-! ### Epochs that are not empty -/

/-- Every filtered epoch starts before the one after it. -/
def Spaced : List Epoch → Prop
  | [] => True
  | e :: later => (e.policy.isFiltered = true → ∀ next ∈ later.head?, e.seqAtFlip < next.seqAtFlip) ∧ Spaced later

theorem Spaced.drop : ∀ {es : List Epoch}, Spaced es → ∀ k, Spaced (es.drop k)
  | [], _, k => by rw [List.drop_nil]; trivial
  | _ :: _, h, 0 => h
  | _ :: es, h, k + 1 => by
    rw [List.drop_succ_cons]
    exact Spaced.drop h.2 k

theorem spaced_cons_cons {e f : Epoch} {es : List Epoch} :
    Spaced (e :: f :: es) ↔ (e.policy.isFiltered = true → e.seqAtFlip < f.seqAtFlip) ∧ Spaced (f :: es) := by
  rw [Spaced]
  simp only [List.head?_cons, Option.mem_def, Option.some.injEq, forall_eq']

theorem spaced_append {x : Epoch} : ∀ {es : List Epoch},
    Spaced (es ++ [x]) ↔ Spaced es ∧ ∀ e ∈ es.getLast?, e.policy.isFiltered = true → e.seqAtFlip < x.seqAtFlip
  | [] => by simp [Spaced]
  | [e] => by simp [Spaced]
  | e :: f :: es => by
    have ih := @spaced_append x (f :: es)
    simp only [List.cons_append] at ih ⊢
    rw [spaced_cons_cons, ih, spaced_cons_cons, List.getLast?_cons_cons, and_assoc]

open EpochLog

variable {fromSeq toSeq q : ℕ}

/-- A stretch begins no earlier than the epochs it is of. -/
theorem le_of_mem_narrowedSpans {x : ℕ} {s : NarrowedSpan} : ∀ {es : List Epoch}, (∀ e ∈ es, x ≤ e.seqAtFlip) →
    s ∈ narrowedSpans fromSeq toSeq es → x ≤ s.fromSeq
  | [], _, h => by simp [narrowedSpans] at h
  | e :: es, hx, h => by
    have ih := @le_of_mem_narrowedSpans x s es fun e he => hx e (List.mem_cons_of_mem _ he)
    unfold narrowedSpans at h
    split at h
    · exact ih h
    · split at h
      · rcases List.mem_cons.mp h with rfl | h
        · exact le_trans (hx e List.mem_cons_self) (le_max_left _ _)
        · exact ih h
      · exact ih h

/-- **The stretches of epochs that are not empty.** -/
theorem stretches_of_spaced (hrange : fromSeq ≤ toSeq) (hmax : toSeq ≤ u64Max) : ∀ {es : List Epoch},
    es.Pairwise (fun a b => a.seqAtFlip ≤ b.seqAtFlip) → Spaced es →
      Stretches fromSeq toSeq (narrowedSpans fromSeq toSeq es)
  | [], _, _ => ⟨fun _ h => absurd h List.not_mem_nil, .nil⟩
  | e :: es, hord, hsp => by
    obtain ⟨hfirst, hord⟩ := List.pairwise_cons.mp hord
    have ih := stretches_of_spaced hrange hmax hord hsp.2
    unfold narrowedSpans
    split
    · exact ih
    rename_i hmeets
    split
    · rename_i hf
      -- the epoch ends below the next, which starts above it
      have hend : e.seqAtFlip ≤ epochEnd es ∧ ∀ s ∈ narrowedSpans fromSeq toSeq es, epochEnd es < s.fromSeq := by
        cases es with
        | nil => exact ⟨by show e.seqAtFlip ≤ u64Max; omega, fun s hs => by simp [narrowedSpans] at hs⟩
        | cons next es =>
          have hlt := hsp.1 hf next rfl
          refine ⟨by show e.seqAtFlip ≤ next.seqAtFlip - 1; omega, fun s hs => ?_⟩
          have hle : next.seqAtFlip ≤ s.fromSeq := by
            apply le_of_mem_narrowedSpans _ hs
            intro f hmem
            rcases List.mem_cons.mp hmem with rfl | hmem
            · exact le_rfl
            · exact (List.pairwise_cons.mp hord).1 f hmem
          show next.seqAtFlip - 1 < s.fromSeq
          omega
      refine ⟨fun s hs => ?_, List.pairwise_cons.mpr ⟨fun s hs => ?_, ih.ascending⟩⟩
      · rcases List.mem_cons.mp hs with rfl | hs
        · exact ⟨le_max_right _ _, by show max _ _ ≤ min _ _; omega, min_le_right _ _⟩
        · exact ih.inside s hs
      · exact Nat.lt_of_le_of_lt (min_le_left _ _) (hend.2 s hs)
    · exact ih

/-- **A seq is in a stretch exactly when a filtered epoch governs it.** -/
theorem mem_narrowedSpans_iff (hfrom : fromSeq ≤ q) (hto : q ≤ toSeq) (hmax : toSeq ≤ u64Max) (F : List String) :
    ∀ {es : List Epoch}, Spaced es →
      ((∃ s ∈ narrowedSpans fromSeq toSeq es, s.Has q ∧ s.filters = F) ↔
        ∃ e, Governs Epoch.seqAtFlip es e q ∧ e.policy.isFiltered = true ∧ e.policy.filters = F)
  | [], _ => by
    simp [narrowedSpans, Governs]
  | e :: es, hsp => by
    have ih := mem_narrowedSpans_iff hfrom hto hmax F hsp.2
    -- the epoch governs the seq, or a later one does
    have hgov : ∀ f, Governs Epoch.seqAtFlip (e :: es) f q ↔
        (f = e ∧ e.seqAtFlip ≤ q ∧ ∀ next ∈ es.head?, q < next.seqAtFlip) ∨ Governs Epoch.seqAtFlip es f q := by
      intro f
      constructor
      · rintro ⟨before, after, hsplit, hf, hafter⟩
        cases before with
        | nil =>
          obtain ⟨rfl, rfl⟩ := List.cons.inj hsplit
          exact .inl ⟨rfl, hf, hafter⟩
        | cons b before =>
          obtain ⟨-, hsplit⟩ := List.cons.inj hsplit
          exact .inr ⟨before, after, hsplit, hf, hafter⟩
      · rintro (⟨rfl, hf, hafter⟩ | ⟨before, after, hsplit, hf, hafter⟩)
        · exact ⟨[], es, rfl, hf, hafter⟩
        · exact ⟨e :: before, after, by rw [hsplit, List.cons_append], hf, hafter⟩
    have hrest : (∃ f, Governs Epoch.seqAtFlip (e :: es) f q ∧ f.policy.isFiltered = true ∧ f.policy.filters = F) ↔
        ((e.seqAtFlip ≤ q ∧ ∀ next ∈ es.head?, q < next.seqAtFlip) ∧ e.policy.isFiltered = true ∧ e.policy.filters = F) ∨
          ∃ s ∈ narrowedSpans fromSeq toSeq es, s.Has q ∧ s.filters = F := by
      rw [ih]
      constructor
      · rintro ⟨f, hg, hf, hF⟩
        rcases (hgov f).mp hg with ⟨rfl, hg⟩ | hg
        · exact .inl ⟨hg, hf, hF⟩
        · exact .inr ⟨f, hg, hf, hF⟩
      · rintro (⟨hg, hf, hF⟩ | ⟨f, hg, hf, hF⟩)
        · exact ⟨e, (hgov e).mpr (.inl ⟨rfl, hg⟩), hf, hF⟩
        · exact ⟨f, (hgov f).mpr (.inr hg), hf, hF⟩
    -- a filtered epoch ends right before the next one starts
    have hend : e.policy.isFiltered = true → (q ≤ epochEnd es ↔ ∀ next ∈ es.head?, q < next.seqAtFlip) := by
      intro hf
      cases es with
      | nil =>
        refine ⟨fun _ next hnext => by simp at hnext, fun _ => ?_⟩
        show q ≤ u64Max
        omega
      | cons next es =>
        have hlt := hsp.1 hf next rfl
        show q ≤ next.seqAtFlip - 1 ↔ _
        constructor
        · intro hq n hn
          obtain rfl : next = n := by simpa using hn
          omega
        · intro hq
          have := hq next rfl
          omega
    rw [hrest, narrowedSpans]
    by_cases hmeets : e.seqAtFlip > toSeq ∨ epochEnd es < fromSeq
    · rw [if_pos hmeets]
      refine ⟨.inr, fun h => h.resolve_left ?_⟩
      rintro ⟨⟨hstart, hnext⟩, hf, -⟩
      have := (hend hf).mpr hnext
      omega
    · rw [if_neg hmeets]
      by_cases hf : e.policy.isFiltered = true
      · rw [if_pos hf]
        simp only [List.mem_cons, exists_eq_or_imp, NarrowedSpan.Has]
        have hhas : (max e.seqAtFlip fromSeq ≤ q ∧ q ≤ min (epochEnd es) toSeq) ↔
            e.seqAtFlip ≤ q ∧ ∀ next ∈ es.head?, q < next.seqAtFlip := by
          rw [← hend hf]
          omega
        rw [hhas]
        simp only [hf, true_and]
      · rw [if_neg hf]
        refine ⟨.inr, fun h => h.resolve_left ?_⟩
        rintro ⟨-, hf', -⟩
        exact hf hf'

/-- The epochs before the one a range starts in report nothing of it. -/
theorem narrowedSpans_drop : ∀ {es : List Epoch} {k : ℕ}, es.Pairwise (fun a b => a.seqAtFlip ≤ b.seqAtFlip) →
    Spaced es → (∃ b ∈ (es.drop k).head?, b.seqAtFlip ≤ fromSeq) →
      narrowedSpans fromSeq toSeq (es.drop k) = narrowedSpans fromSeq toSeq es
  | [], k, _, _, _ => by rw [List.drop_nil]
  | _ :: _, 0, _, _, _ => rfl
  | e :: es, k + 1, hord, hsp, hb => by
    obtain ⟨hfirst, hord⟩ := List.pairwise_cons.mp hord
    rw [List.drop_succ_cons] at hb ⊢
    rw [narrowedSpans_drop hord hsp.2 hb, narrowedSpans]
    by_cases hf : e.policy.isFiltered = true
    · rw [if_pos]
      right
      obtain ⟨b, hb, hle⟩ := hb
      have hmem : b ∈ es := List.mem_of_mem_drop (List.mem_of_mem_head? hb)
      cases es with
      | nil => simp at hmem
      | cons next es =>
        have hlt := hsp.1 hf next rfl
        have hnext : next.seqAtFlip ≤ b.seqAtFlip := by
          rcases List.mem_cons.mp hmem with rfl | hmem
          · exact le_rfl
          · exact (List.pairwise_cons.mp hord).1 b hmem
        show next.seqAtFlip - 1 < fromSeq
        omega
    · rw [if_neg hf, ite_self]

/-- A filtered epoch that meets a range is reported, also when it is empty. -/
theorem mem_narrowedSpans_split {e : Epoch} {after : List Epoch} (hto : e.seqAtFlip ≤ toSeq)
    (hfrom : fromSeq ≤ epochEnd after) (hf : e.policy.isFiltered = true) : ∀ before : List Epoch,
    ⟨max e.seqAtFlip fromSeq, min (epochEnd after) toSeq, e.policy.filters⟩ ∈
      narrowedSpans fromSeq toSeq (before ++ e :: after)
  | [] => by
    rw [List.nil_append, narrowedSpans, if_neg (by omega), if_pos hf]
    exact List.mem_cons_self
  | b :: before => by
    have ih := mem_narrowedSpans_split hto hfrom hf before
    rw [List.cons_append, narrowedSpans]
    split
    · exact ih
    · split
      · exact List.mem_cons_of_mem _ ih
      · exact ih

/-! ### The log that drops nothing -/

theorem policyAt_append {ds : List (ℕ × FilterPolicy)} (hne : ds ≠ []) (t : ℕ × FilterPolicy) (q : ℕ) :
    policyAt (ds ++ [t]) q = if t.1 ≤ q then some t.2 else policyAt ds q := by
  unfold policyAt
  split_ifs with h
  · rw [lastUpTo_append_of_le h]
  · rw [lastUpTo_append_of_lt (by omega)]
    obtain ⟨d, ds, rfl⟩ := List.exists_cons_of_ne_nil hne
    rfl

/-- From the last decision on, its policy holds. -/
theorem policyAt_of_le {ds : List (ℕ × FilterPolicy)} {q : ℕ} (h : ∀ t ∈ ds, t.1 ≤ q) :
    policyAt ds q = ds.getLast?.map Prod.snd := by
  unfold policyAt lastUpTo
  rw [List.filter_eq_self.mpr fun t ht => by simpa using h t ht]
  cases hlast : ds.getLast? with
  | none => rw [List.getLast?_eq_none_iff.mp hlast]; rfl
  | some t => rfl

namespace EpochLog

variable {l k : EpochLog}

theorem observeAllKept_append (l : EpochLog) (ts us : List (ℕ × FilterPolicy)) :
    l.observeAllKept (ts ++ us) = (l.observeAllKept ts).observeAllKept us := List.foldl_append

theorem observeKept_same {e : Epoch} (he : l.epochs.getLast? = some e) (seq : ℕ) :
    l.observeKept seq e.policy = l := by
  unfold observeKept
  rw [he, if_pos (by simp)]

theorem observeKept_push {policy : FilterPolicy} (h : ∀ e ∈ l.epochs.getLast?, e.policy ≠ policy) (seq : ℕ) :
    (l.observeKept seq policy).epochs = l.pushed seq policy ∧ (l.observeKept seq policy).originSeq = l.originSeq := by
  unfold observeKept
  rw [if_neg]
  · exact ⟨rfl, rfl⟩
  · rw [Option.any_eq_true]
    rintro ⟨e, he, hp⟩
    exact h e he (by simpa using hp)

/-- What a decision does to the log that drops nothing. -/
theorem observeKept_cases (l : EpochLog) (seq : ℕ) (policy : FilterPolicy) :
    (l.observeKept seq policy = l ∧ ∃ e, l.epochs.getLast? = some e ∧ e.policy = policy) ∨
      ((∀ e ∈ l.epochs.getLast?, e.policy ≠ policy) ∧ (l.observeKept seq policy).epochs = l.pushed seq policy ∧
        (l.observeKept seq policy).originSeq = l.originSeq) := by
  by_cases h : ∃ e, l.epochs.getLast? = some e ∧ e.policy = policy
  · obtain ⟨e, he, rfl⟩ := h
    exact .inl ⟨observeKept_same he seq, e, he, rfl⟩
  · have hne : ∀ e ∈ l.epochs.getLast?, e.policy ≠ policy := fun e he hp => h ⟨e, he, hp⟩
    exact .inr ⟨hne, observeKept_push hne seq⟩

/-- The log that drops nothing, after the decisions `ds`. -/
structure Kept (origin : ℕ) (ds : List (ℕ × FilterPolicy)) (l : EpochLog) : Prop where
  originSeq : l.originSeq = origin
  nonempty : ds ≠ [] → l.epochs ≠ []
  first : ∀ e ∈ l.epochs.head?, e.seqAtFlip = origin
  upto : ∀ n, origin ≤ n → (∀ t ∈ ds, t.1 ≤ n) → ∀ e ∈ l.epochs, e.seqAtFlip ≤ n
  last : l.epochs.getLast?.map Epoch.policy = ds.getLast?.map Prod.snd
  governed : ∀ q, origin ≤ q → (lastUpTo Epoch.seqAtFlip l.epochs q).map Epoch.policy = policyAt ds q

variable {origin : ℕ} {ds : List (ℕ × FilterPolicy)} {t : ℕ × FilterPolicy}

theorem kept_new (origin : ℕ) : Kept origin [] (new origin) :=
  ⟨rfl, fun h => absurd rfl h, fun _ h => (nomatch h), fun _ _ _ _ h => absurd h List.not_mem_nil, rfl, fun _ _ => rfl⟩

/-- One more decision, at no lower a seq. -/
theorem Kept.observe (h : Kept origin ds l) (ht : ∀ d ∈ ds, d.1 ≤ t.1) :
    Kept origin (ds ++ [t]) (l.observeKept t.1 t.2) := by
  have hlast : (ds ++ [t]).getLast?.map Prod.snd = some t.2 := by rw [List.getLast?_concat]; rfl
  rcases l.observeKept_cases t.1 t.2 with ⟨hsame, e, he, hp⟩ | ⟨hne, heps, horigin⟩
  · -- the policy in force goes on
    have hds : ds ≠ [] := by
      rintro rfl
      have := h.last
      rw [he] at this
      simp at this
    rw [hsame]
    refine ⟨h.originSeq, fun _ => h.nonempty hds, h.first, fun n hn hall => ?_, ?_, fun q hq => ?_⟩
    · exact h.upto n hn fun d hd => hall d (List.mem_append_left _ hd)
    · rw [he, hlast, ← hp]
      rfl
    · rw [h.governed q hq, policyAt_append hds]
      split_ifs with htq
      · rw [policyAt_of_le fun d hd => le_trans (ht d hd) htq, ← h.last, he, ← hp]
        rfl
      · rfl
  · by_cases hds : ds = []
    · -- the first epoch is back-dated to the origin
      subst hds
      have hnil : l.epochs = [] := by
        have := h.last
        simpa using this
      have hone : (l.observeKept t.1 t.2).epochs = [⟨origin, t.2⟩] := by
        rw [heps, pushed, flipFor, hnil]
        exact congrArg (fun o => [Epoch.mk o t.2]) h.originSeq
      refine ⟨by rw [horigin, h.originSeq], fun _ => ?_, ?_, ?_, ?_, fun q hq => ?_⟩
      · rw [hone]
        exact List.cons_ne_nil _ _
      · rw [hone]
        intro e he
        obtain rfl : Epoch.mk origin t.2 = e := by simpa using he
        rfl
      · intro n hn _ e he
        rw [hone] at he
        rw [List.mem_singleton.mp he]
        exact hn
      · rw [hone, hlast]
        rfl
      · rw [hone]
        have hgov : lastUpTo Epoch.seqAtFlip [Epoch.mk origin t.2] q = some ⟨origin, t.2⟩ :=
          lastUpTo_append_of_le (l := []) hq
        rw [hgov]
        unfold policyAt lastUpTo
        by_cases htq : t.1 ≤ q <;> simp [htq]
    · obtain ⟨e, he⟩ := Option.isSome_iff_exists.mp (List.getLast?_isSome.mpr (h.nonempty hds))
      have hflip : l.flipFor t.1 = max t.1 e.seqAtFlip := by rw [flipFor, he]
      refine ⟨by rw [horigin, h.originSeq], fun _ => ?_, ?_, ?_, ?_, fun q hq => ?_⟩
      · rw [heps, pushed]
        simp
      · rw [heps, pushed]
        intro f hf
        obtain ⟨a, rest, hcons⟩ := List.exists_cons_of_ne_nil (h.nonempty hds)
        refine h.first f ?_
        rw [hcons] at hf ⊢
        exact hf
      · intro n hn hall f hf
        have hle := h.upto n hn fun d hd => hall d (List.mem_append_left _ hd)
        rw [heps, pushed] at hf
        rcases List.mem_append.mp hf with hf | hf
        · exact hle f hf
        · rw [List.mem_singleton.mp hf]
          show l.flipFor t.1 ≤ n
          rw [hflip]
          exact max_le (hall t (List.mem_append_right _ List.mem_cons_self)) (hle e (List.mem_of_getLast? he))
      · rw [heps, hlast, pushed, List.getLast?_concat]
        rfl
      · rw [heps, pushed, policyAt_append hds]
        by_cases htq : t.1 ≤ q
        · have hle := h.upto q hq fun d hd => le_trans (ht d hd) htq
          rw [if_pos htq, lastUpTo_append_of_le]
          · rfl
          · show l.flipFor t.1 ≤ q
            rw [hflip]
            exact max_le htq (hle e (List.mem_of_getLast? he))
        · rw [if_neg htq, lastUpTo_append_of_lt, h.governed q hq]
          show q < l.flipFor t.1
          rw [hflip]
          exact Nat.lt_of_lt_of_le (Nat.lt_of_not_le htq) (le_max_left _ _)

/-- Decisions at seqs that never go down. -/
theorem kept_observeAll (origin : ℕ) (ds : List (ℕ × FilterPolicy)) (hasc : ds.Pairwise fun a b => a.1 ≤ b.1) :
    Kept origin ds ((new origin).observeAllKept ds) := by
  induction ds using List.reverseRecOn with
  | nil => exact kept_new origin
  | append_singleton ds t ih =>
    obtain ⟨hds, _, ht⟩ := List.pairwise_append.mp hasc
    rw [observeAllKept_append]
    exact (ih hds).observe fun d hd => ht d hd t List.mem_cons_self

/-! ### The log against the one that drops nothing -/

/-- Keeping the newest `c` before and after one more is keeping them after. -/
theorem drop_drop_append {α : Type} (c : ℕ) (l : List α) (x : α) :
    (l.drop (l.length - c) ++ [x]).drop ((l.drop (l.length - c) ++ [x]).length - c) =
      (l ++ [x]).drop ((l ++ [x]).length - c) := by
  have hfit : l.length - c ≤ l.length := Nat.sub_le _ _
  have hsum : l.length - c + (l.length - (l.length - c) + 1 - c) = l.length + 1 - c := by omega
  rw [← List.drop_append_of_le_length hfit, List.drop_drop, List.length_drop, List.length_append,
    List.length_singleton, show l.length + 1 - (l.length - c) = l.length - (l.length - c) + 1 by omega, hsum]

/-- The log is the newest `epochCapacity` epochs of the one that drops nothing. -/
structure Trimmed (l k : EpochLog) : Prop where
  originSeq : l.originSeq = k.originSeq
  epochs : l.epochs = k.epochs.drop (k.epochs.length - epochCapacity)

theorem Trimmed.getLast (h : Trimmed l k) : l.epochs.getLast? = k.epochs.getLast? := by
  rw [h.epochs, List.getLast?_drop]
  split_ifs with hlen
  · have : k.epochs.length = 0 := by unfold epochCapacity at hlen; omega
    rw [List.length_eq_zero_iff.mp this]
    rfl
  · rfl

theorem Trimmed.observe (h : Trimmed l k) (seq : ℕ) (policy : FilterPolicy) :
    Trimmed (l.observe seq policy) (k.observeKept seq policy) := by
  unfold EpochLog.observe observeKept
  rw [h.getLast]
  by_cases hsame : (k.epochs.getLast?.any fun e => e.policy = policy) = true
  · rw [if_pos hsame, if_pos hsame]
    exact h
  · rw [if_neg hsame, if_neg hsame]
    refine ⟨h.originSeq, ?_⟩
    have hflip : l.flipFor seq = k.flipFor seq := by
      unfold flipFor
      rw [h.getLast, h.originSeq]
    show trimFront epochCapacity (l.pushed seq policy) = _
    rw [trimFront_eq_drop]
    unfold pushed
    rw [hflip, h.epochs]
    exact drop_drop_append epochCapacity k.epochs _

theorem trimmed_observeAll (origin : ℕ) (ds : List (ℕ × FilterPolicy)) :
    Trimmed ((new origin).observeAll ds) ((new origin).observeAllKept ds) := by
  induction ds using List.reverseRecOn with
  | nil => exact ⟨rfl, List.drop_nil.symm⟩
  | append_singleton ds t ih =>
    rw [observeAll_append, observeAllKept_append]
    exact ih.observe t.1 t.2

/-! ### The condition -/

/-- After the epoch `e`, the decisions leave no filtered epoch empty exactly
when no filtered policy gives way at once. -/
theorem spaced_observeAllKept {e : Epoch} (he : l.epochs.getLast? = some e) (ds : List (ℕ × FilterPolicy)) :
    Spaced (l.observeAllKept ds).epochs ↔ Spaced l.epochs ∧ NotEmptied e.seqAtFlip e.policy ds := by
  induction ds generalizing l e with
  | nil => exact (and_iff_left trivial).symm
  | cons t ds ih =>
    show Spaced ((l.observeKept t.1 t.2).observeAllKept ds).epochs ↔ _
    unfold NotEmptied
    by_cases hp : t.2 = e.policy
    · rw [if_pos hp, hp, observeKept_same he]
      exact ih he
    · have hne : ∀ f ∈ l.epochs.getLast?, f.policy ≠ t.2 := by
        intro f hf
        obtain rfl : e = f := by simpa [he] using hf
        exact fun h => hp h.symm
      have heps := (observeKept_push hne t.1).1
      have hflip : l.flipFor t.1 = max t.1 e.seqAtFlip := by rw [flipFor, he]
      have hlast : (l.observeKept t.1 t.2).epochs.getLast? = some ⟨max t.1 e.seqAtFlip, t.2⟩ := by
        rw [heps, pushed, hflip, List.getLast?_concat]
      have hmax : e.seqAtFlip < max t.1 e.seqAtFlip ↔ e.seqAtFlip < t.1 := by omega
      rw [if_neg hp, ih hlast, heps, pushed, spaced_append, he, hflip, and_assoc]
      simp only [Option.mem_def, Option.some.injEq, forall_eq', hmax]

theorem spaced_iff_neverEmptied (origin : ℕ) (ds : List (ℕ × FilterPolicy)) :
    Spaced ((new origin).observeAllKept ds).epochs ↔ NeverEmptied origin ds := by
  cases ds with
  | nil => exact Iff.rfl
  | cons t ds =>
    have hfirst : ((new origin).observeKept t.1 t.2).epochs = [⟨origin, t.2⟩] := by
      rw [(observeKept_push (l := new origin) (by simp [new]) t.1).1]
      rfl
    have hlast : ((new origin).observeKept t.1 t.2).epochs.getLast? = some ⟨origin, t.2⟩ := by rw [hfirst]; rfl
    show Spaced (((new origin).observeKept t.1 t.2).observeAllKept ds).epochs ↔ NotEmptied origin t.2 ds
    rw [spaced_observeAllKept hlast, hfirst]
    simp [Spaced]

/-- A beginning of decisions that leave no filtered epoch empty is one too. -/
theorem spaced_of_append {ds later : List (ℕ × FilterPolicy)}
    (h : Spaced ((new origin).observeAllKept (ds ++ later)).epochs) :
    Spaced ((new origin).observeAllKept ds).epochs := by
  rw [observeAllKept_append] at h
  cases hlast : ((new origin).observeAllKept ds).epochs.getLast? with
  | none =>
    rw [List.getLast?_eq_none_iff.mp hlast]
    trivial
  | some e => exact ((spaced_observeAllKept hlast later).mp h).1

/-! ### The answers -/

theorem coverage_of_head {first : Epoch} (h : l.epochs.head? = some first) (fromSeq toSeq : ℕ) :
    l.coverage fromSeq toSeq = ⟨decide (fromSeq ≥ first.seqAtFlip), narrowedSpans fromSeq toSeq l.epochs⟩ := by
  unfold coverage
  rw [h]

/-- The policy that governs a seq, read off the log that drops nothing. -/
theorem Kept.filtered_iff (h : Kept origin ds l) {q : ℕ} (hq : origin ≤ q) (F : List String) :
    (∃ e, lastUpTo Epoch.seqAtFlip l.epochs q = some e ∧ e.policy.isFiltered = true ∧ e.policy.filters = F) ↔
      ∃ p, policyAt ds q = some p ∧ p.filters = F ∧ F ≠ [] := by
  rw [← h.governed q hq]
  cases lastUpTo Epoch.seqAtFlip l.epochs q with
  | none => simp
  | some e =>
    simp only [Option.some.injEq, exists_eq_left', Option.map_some, FilterPolicy.isFiltered]
    constructor
    · rintro ⟨hf, rfl⟩
      exact ⟨rfl, by simpa using hf⟩
    · rintro ⟨rfl, hF⟩
      exact ⟨by simpa using hF, rfl⟩

/-- **Where no filtered epoch is empty, the log answers exactly.** -/
theorem answersExactly_of_spaced (hasc : ds.Pairwise fun a b => a.1 ≤ b.1)
    (hsp : Spaced ((new origin).observeAllKept ds).epochs) : AnswersExactly origin ds := by
  intro fromSeq toSeq hrange hmax
  have hkept := kept_observeAll origin ds hasc
  have htrim := trimmed_observeAll origin ds
  generalize (new origin).observeAllKept ds = k at hsp hkept htrim ⊢
  generalize (new origin).observeAll ds = l at htrim ⊢
  obtain ⟨dropped, hepochs⟩ : ∃ dropped, l.epochs = k.epochs.drop dropped := ⟨_, htrim.epochs⟩
  have hspl : Spaced l.epochs := by
    rw [hepochs]
    exact hsp.drop dropped
  cases hfirst : l.epochs.head? with
  | none =>
    have hnone : l.coverage fromSeq toSeq = ⟨false, []⟩ := by unfold coverage; rw [hfirst]
    simp only [hnone]
    exact ⟨⟨fun _ h => absurd h List.not_mem_nil, .nil⟩, fun h => absurd h Bool.false_ne_true,
      fun h => absurd h Bool.false_ne_true⟩
  | some first =>
    have hfirst' := hfirst
    rw [hepochs] at hfirst'
    simp only [coverage_of_head hfirst, decide_eq_true_eq]
    refine ⟨stretches_of_spaced hrange hmax l.ordered hspl, fun hcov q hfrom hto F => ?_, fun hcov => ?_⟩
    · -- the first epoch kept starts at the origin or above it
      have horigin : origin ≤ first.seqAtFlip := by
        have hmem : first ∈ k.epochs := List.mem_of_mem_drop (List.mem_of_mem_head? hfirst')
        obtain ⟨a, rest, hcons⟩ := List.exists_cons_of_ne_nil (List.ne_nil_of_mem hmem)
        have ha := hkept.first a (by rw [hcons]; rfl)
        have hord := k.ordered
        rw [hcons] at hmem hord
        rcases List.mem_cons.mp hmem with rfl | hmem
        · exact ha.ge
        · rw [← ha]
          exact (List.pairwise_cons.mp hord).1 first hmem
      have hq : first.seqAtFlip ≤ q := le_trans hcov hfrom
      rw [mem_narrowedSpans_iff hfrom hto hmax F hspl]
      simp only [governs_iff_lastUpTo l.ordered]
      rw [hepochs, lastUpTo_drop ⟨first, hfirst', hq⟩]
      exact hkept.filtered_iff (le_trans horigin hq) F
    · have hspans : narrowedSpans fromSeq toSeq l.epochs = narrowedSpans fromSeq toSeq k.epochs := by
        rw [hepochs]
        exact narrowedSpans_drop k.ordered hsp ⟨first, hfirst', hcov⟩
      have hmem : first ∈ k.epochs := List.mem_of_mem_drop (List.mem_of_mem_head? hfirst')
      obtain ⟨a, rest, hcons⟩ := List.exists_cons_of_ne_nil (List.ne_nil_of_mem hmem)
      have hle : a.seqAtFlip ≤ fromSeq := by
        have hord := k.ordered
        rw [hcons] at hmem hord
        rcases List.mem_cons.mp hmem with rfl | hmem
        · exact hcov
        · exact le_trans ((List.pairwise_cons.mp hord).1 first hmem) hcov
      rw [coverage_of_head (by rw [hcons]; rfl : k.epochs.head? = some a), hspans]
      simp only [ge_iff_le, hle, hcov]

/-- An answer after a filtered policy gave way at once is wrong: its epoch is
reported and has no seq. -/
theorem not_emptied_of_answers (hasc : (ds ++ [t]).Pairwise fun a b => a.1 ≤ b.1) (horigin : origin ≤ u64Max)
    (hmax : ∀ d ∈ ds, d.1 ≤ u64Max) (hexact : AnswersExactly origin (ds ++ [t])) {e : Epoch}
    (he : ((new origin).observeAllKept ds).epochs.getLast? = some e) (hp : e.policy ≠ t.2)
    (hf : e.policy.isFiltered = true) : e.seqAtFlip < t.1 := by
  by_contra hle
  obtain ⟨hds, -, ht⟩ := List.pairwise_append.mp hasc
  have hkept := kept_observeAll origin ds hds
  have htrim := trimmed_observeAll origin (ds ++ [t])
  rw [observeAllKept_append] at htrim
  have hstart : e.seqAtFlip ≤ u64Max := hkept.upto u64Max horigin hmax e (List.mem_of_getLast? he)
  generalize (new origin).observeAllKept ds = k at he htrim
  obtain ⟨before, hsplit⟩ := List.getLast?_eq_some_iff.mp he
  have hpush : (k.observeKept t.1 t.2).epochs = before ++ [e, ⟨e.seqAtFlip, t.2⟩] := by
    have hne : ∀ f ∈ k.epochs.getLast?, f.policy ≠ t.2 := by
      intro f hf'
      obtain rfl : e = f := by simpa [he] using hf'
      exact hp
    have hflip : k.flipFor t.1 = e.seqAtFlip := by
      rw [flipFor, he]
      exact max_eq_right (Nat.le_of_not_lt hle)
    rw [(observeKept_push hne t.1).1, pushed, hflip, hsplit, List.append_assoc]
    rfl
  -- the two newest epochs are kept: the empty one and the one it gave way to
  obtain ⟨kept, hepochs⟩ : ∃ kept, ((new origin).observeAll (ds ++ [t])).epochs = kept ++ e :: [⟨e.seqAtFlip, t.2⟩] := by
    rw [htrim.epochs]
    show ∃ kept, (k.observeKept t.1 t.2).epochs.drop ((k.observeKept t.1 t.2).epochs.length - epochCapacity) = _
    rw [hpush, List.drop_append_of_le_length]
    · exact ⟨_, rfl⟩
    · rw [List.length_append]
      show before.length + 2 - 1024 ≤ before.length
      omega
  have hcov : ∀ fromSeq toSeq, (((new origin).observeAll (ds ++ [t])).coverage fromSeq toSeq).narrowed =
      narrowedSpans fromSeq toSeq (kept ++ e :: [⟨e.seqAtFlip, t.2⟩]) := by
    intro fromSeq toSeq
    unfold coverage
    rw [hepochs]
    cases kept <;> rfl
  rcases Nat.eq_zero_or_pos e.seqAtFlip with hzero | hpos
  · -- at seq 0 the empty epoch is given the seq of the one after it
    obtain ⟨-, hmem, -⟩ := hexact 0 0 le_rfl (Nat.zero_le _)
    have hcovered : (((new origin).observeAll (ds ++ [t])).coverage 0 0).covered = true := by
      have hord := ((new origin).observeAll (ds ++ [t])).ordered
      obtain ⟨first, hfirst⟩ := Option.isSome_iff_exists.mp (List.isSome_head?.mpr
        (by rw [hepochs]; simp : ((new origin).observeAll (ds ++ [t])).epochs ≠ []))
      rw [coverage_of_head hfirst]
      rw [hepochs] at hord hfirst
      have hle : first.seqAtFlip ≤ e.seqAtFlip := by
        cases kept with
        | nil => rw [← Option.some.inj hfirst]
        | cons a kept =>
          obtain rfl : a = first := Option.some.inj hfirst
          exact (List.pairwise_cons.mp hord).1 e (by simp)
      simp only [decide_eq_true_eq]
      omega
    have hspan : (⟨max e.seqAtFlip 0, min (epochEnd [⟨e.seqAtFlip, t.2⟩]) 0, e.policy.filters⟩ : NarrowedSpan) ∈
        narrowedSpans 0 0 (kept ++ e :: [⟨e.seqAtFlip, t.2⟩]) :=
      mem_narrowedSpans_split (Nat.le_of_eq hzero) (Nat.zero_le _) hf kept
    rw [← hcov] at hspan
    obtain ⟨p, hpolicy, hfilters, -⟩ := (hmem hcovered 0 le_rfl le_rfl e.policy.filters).mp
      ⟨_, hspan, ⟨by show max e.seqAtFlip 0 ≤ 0; omega, Nat.zero_le _⟩, rfl⟩
    have hlast : policyAt (ds ++ [t]) 0 = some t.2 := by
      rw [policyAt_of_le, List.getLast?_concat, Option.map_some]
      intro d hd
      rcases List.mem_append.mp hd with hd | hd
      · exact le_trans (ht d hd t List.mem_cons_self) (by omega)
      · rw [List.mem_singleton.mp hd]
        omega
    obtain rfl : t.2 = p := by rw [hlast] at hpolicy; exact Option.some.inj hpolicy
    apply hp
    cases hep : e.policy
    cases htp : t.2
    simp_all
  · have hspan : (⟨max e.seqAtFlip (e.seqAtFlip - 1), min (epochEnd [⟨e.seqAtFlip, t.2⟩]) e.seqAtFlip,
        e.policy.filters⟩ : NarrowedSpan) ∈
        narrowedSpans (e.seqAtFlip - 1) e.seqAtFlip (kept ++ e :: [⟨e.seqAtFlip, t.2⟩]) :=
      mem_narrowedSpans_split le_rfl (Nat.le_refl (e.seqAtFlip - 1)) hf kept
    rw [← hcov] at hspan
    have hinside := ((hexact (e.seqAtFlip - 1) e.seqAtFlip (Nat.sub_le _ _) hstart).1.inside _ hspan).2.1
    have : max e.seqAtFlip (e.seqAtFlip - 1) ≤ min (e.seqAtFlip - 1) e.seqAtFlip := hinside
    omega

end EpochLog

/-- **The epoch log answers exactly where no filtered policy gives way at the
seq it came into force at**, in every state it goes through, and there only. -/
theorem answers_exactly_iff (origin : ℕ) (decisions : List (ℕ × FilterPolicy)) (horigin : origin ≤ u64Max)
    (hmax : ∀ d ∈ decisions, d.1 ≤ u64Max) (hasc : decisions.Pairwise fun a b => a.1 ≤ b.1) :
    (∀ earlier, earlier <+: decisions → AnswersExactly origin earlier) ↔ NeverEmptied origin decisions := by
  rw [← spaced_iff_neverEmptied]
  constructor
  · intro hexact
    induction decisions using List.reverseRecOn with
    | nil => trivial
    | append_singleton ds t ih =>
      have hds := ih (fun d hd => hmax d (List.mem_append_left _ hd)) (List.pairwise_append.mp hasc).1
        fun earlier h => hexact earlier (h.trans (List.prefix_append _ _))
      rw [observeAllKept_append]
      show Spaced (((new origin).observeAllKept ds).observeKept t.1 t.2).epochs
      rcases ((new origin).observeAllKept ds).observeKept_cases t.1 t.2 with ⟨hsame, _⟩ | ⟨hne, heps, _⟩
      · rw [hsame]
        exact hds
      · rw [heps, pushed, spaced_append]
        refine ⟨hds, fun e he hf => ?_⟩
        have hlt := not_emptied_of_answers hasc horigin (fun d hd => hmax d (List.mem_append_left _ hd))
          (hexact _ List.prefix_rfl) he (hne e he) hf
        exact Nat.lt_of_lt_of_le hlt (le_flipFor t.1 (List.ne_nil_of_mem (List.mem_of_getLast? he)))
  · rintro hsp earlier ⟨later, rfl⟩
    exact answersExactly_of_spaced (List.pairwise_append.mp hasc).1 (spaced_of_append hsp)

/-- Two flips, each at a seq of its own. -/
theorem answers_exactly_iff_two_flips :
    AnswersExactly 0 [(1, FilterPolicy.mk []), (5, ⟨["l>=ERROR"]⟩), (9, ⟨[]⟩)] := by
  refine (answers_exactly_iff 0 [(1, ⟨[]⟩), (5, ⟨["l>=ERROR"]⟩), (9, ⟨[]⟩)] (Nat.zero_le _) ?_ ?_).mpr ?_ _
    List.prefix_rfl
  · decide
  · decide
  · simp [NeverEmptied, NotEmptied]

/-- A filter that came and went at seq 5 is reported from 5 to 4. -/
theorem stretch_of_empty_epoch :
    ([(1, ⟨[]⟩), (5, ⟨["l>=ERROR"]⟩), (5, ⟨[]⟩)] : List (ℕ × FilterPolicy)).Pairwise (fun a b => a.1 ≤ b.1) ∧
      ((EpochLog.new 0).observeAll [(1, ⟨[]⟩), (5, ⟨["l>=ERROR"]⟩), (5, ⟨[]⟩)]).coverage 1 10 =
        ⟨true, [⟨5, 4, ["l>=ERROR"]⟩]⟩ ∧
      ¬ AnswersExactly 0 [(1, ⟨[]⟩), (5, ⟨["l>=ERROR"]⟩), (5, ⟨[]⟩)] := by
  have hanswer : ((EpochLog.new 0).observeAll [(1, ⟨[]⟩), (5, ⟨["l>=ERROR"]⟩), (5, ⟨[]⟩)]).coverage 1 10 =
      ⟨true, [⟨5, 4, ["l>=ERROR"]⟩]⟩ := by decide +kernel
  refine ⟨by decide, hanswer, fun h => ?_⟩
  have hinside := (h 1 10 (by decide) (by decide)).1.inside ⟨5, 4, ["l>=ERROR"]⟩ (by rw [hanswer]; simp)
  exact absurd hinside.2.1 (by decide)

end Logmon
