/-
# What the rebuilt epochs answer

A case records the stretches of its window over which storage was narrowed; a
load makes two transitions of each, and an epoch log of those. What a range
inside the window has of the recorded stretches is what the live log answers
for that range (`narrowedSpans_clip`), and the rebuilt log answers the same
(`narrowedSpans_rebuilt`), whichever epochs of the live log were empty or lay
outside the window. That holds of the epochs kept: an epoch log keeps
`epochCapacity` of them and a stretch takes two, so a range is answered as it
was live exactly where it meets none but the newest `maxStretches`
(`Recorded.answers_iff`), and is not vouched for where it meets another
(`Recorded.covered_of_answers`).

Key definitions: `NarrowedSpan.clip`, `rebuiltEpochs`, `maxStretches`,
`forgotten`, `Recorded`.
Key theorems: `narrowedSpans_clip`, `narrowedSpans_rebuilt`,
`Recorded.answers_iff`, `Recorded.covered_of_answers`.
-/
import Logmon.Cases.Postmortem
import Logmon.Engine.EpochExact

namespace Logmon

open Lib EpochLog

/-! ### What a range has of the stretches -/

/-- What the range `fromSeq..=toSeq` has of a stretch. -/
def NarrowedSpan.clip (fromSeq toSeq : ℕ) (n : NarrowedSpan) : Option NarrowedSpan :=
  if n.fromSeq > toSeq ∨ n.toSeq < fromSeq then none
  else some ⟨max n.fromSeq fromSeq, min n.toSeq toSeq, n.filters⟩

theorem narrowedSpans_of_unfiltered {fromSeq toSeq : ℕ} {e : Epoch} (h : e.policy.isFiltered = false)
    (es : List Epoch) : narrowedSpans fromSeq toSeq (e :: es) = narrowedSpans fromSeq toSeq es := by
  rw [narrowedSpans]
  simp [h]

/-- **A range inside another is answered by what it has of the other's
stretches.** -/
theorem narrowedSpans_clip {fromSeq toSeq lo hi : ℕ} (hlo : fromSeq ≤ lo) (hle : lo ≤ hi) (hhi : hi ≤ toSeq) :
    ∀ es : List Epoch, narrowedSpans lo hi es = (narrowedSpans fromSeq toSeq es).filterMap (NarrowedSpan.clip lo hi)
  | [] => rfl
  | e :: es => by
    have ih := narrowedSpans_clip hlo hle hhi es
    cases hf : e.policy.isFiltered with
    | false => rw [narrowedSpans_of_unfiltered hf, narrowedSpans_of_unfiltered hf, ih]
    | true =>
      rw [narrowedSpans, narrowedSpans, if_pos hf, if_pos hf]
      by_cases hout : e.seqAtFlip > toSeq ∨ epochEnd es < fromSeq
      · rw [if_pos hout, if_pos (by omega), ih]
      · rw [if_neg hout, List.filterMap_cons]
        unfold NarrowedSpan.clip
        by_cases hin : e.seqAtFlip > hi ∨ epochEnd es < lo
        · rw [if_pos hin, if_pos (by dsimp only; omega)]
          exact ih
        · rw [if_neg hin, if_neg (by dsimp only; omega)]
          have hstart : max (max e.seqAtFlip fromSeq) lo = max e.seqAtFlip lo := by omega
          have hend : min (min (epochEnd es) toSeq) hi = min (epochEnd es) hi := by omega
          simp only [hstart, hend]
          exact congrArg _ ih

/-- The stretches of a log answer are those of its epochs. -/
theorem coverage_narrowed (l : EpochLog) (fromSeq toSeq : ℕ) :
    (l.coverage fromSeq toSeq).narrowed = narrowedSpans fromSeq toSeq l.epochs := by
  unfold coverage
  cases hepochs : l.epochs with
  | nil => rfl
  | cons e es => rfl

/-- A stretch is of a filtered epoch, and has its filters. -/
theorem filters_of_mem_narrowedSpans {fromSeq toSeq : ℕ} {n : NarrowedSpan} : ∀ {es : List Epoch},
    n ∈ narrowedSpans fromSeq toSeq es → ∃ e ∈ es, e.policy.isFiltered = true ∧ n.filters = e.policy.filters
  | [], h => by simp [narrowedSpans] at h
  | e :: es, h => by
    have hrest : n ∈ narrowedSpans fromSeq toSeq es →
        ∃ e' ∈ e :: es, e'.policy.isFiltered = true ∧ n.filters = e'.policy.filters := by
      intro hn
      obtain ⟨e', he', hf⟩ := filters_of_mem_narrowedSpans hn
      exact ⟨e', List.mem_cons_of_mem _ he', hf⟩
    unfold narrowedSpans at h
    split at h
    · exact hrest h
    · split at h
      · rename_i hf
        rcases List.mem_cons.mp h with rfl | h
        · exact ⟨e, List.mem_cons_self, hf, rfl⟩
        · exact hrest h
      · exact hrest h

/-- A stretch is inside the range asked for. -/
theorem inside_of_mem_narrowedSpans {fromSeq toSeq : ℕ} {n : NarrowedSpan} : ∀ {es : List Epoch},
    n ∈ narrowedSpans fromSeq toSeq es → fromSeq ≤ n.fromSeq ∧ n.toSeq ≤ toSeq
  | [], h => by simp [narrowedSpans] at h
  | e :: es, h => by
    unfold narrowedSpans at h
    split at h
    · exact inside_of_mem_narrowedSpans h
    · split at h
      · rcases List.mem_cons.mp h with rfl | h
        · exact ⟨le_max_right _ _, min_le_right _ _⟩
        · exact inside_of_mem_narrowedSpans h
      · exact inside_of_mem_narrowedSpans h

/-- A stretch begins no later than the range ends. -/
theorem fromSeq_le_of_mem_narrowedSpans {fromSeq toSeq : ℕ} (hle : fromSeq ≤ toSeq) {n : NarrowedSpan} :
    ∀ {es : List Epoch}, n ∈ narrowedSpans fromSeq toSeq es → n.fromSeq ≤ toSeq
  | [], h => by simp [narrowedSpans] at h
  | e :: es, h => by
    unfold narrowedSpans at h
    split at h
    · exact fromSeq_le_of_mem_narrowedSpans hle h
    · rename_i hin
      split at h
      · rcases List.mem_cons.mp h with rfl | h
        · exact max_le (Nat.le_of_not_lt fun hlt => hin (.inl hlt)) hle
        · exact fromSeq_le_of_mem_narrowedSpans hle h
      · exact fromSeq_le_of_mem_narrowedSpans hle h

namespace Cases

/-- The stretches of a window above seq 0 are in order, and apart. -/
theorem inOrder_narrowedSpans {fromSeq toSeq : ℕ} (hpos : 0 < fromSeq) (hle : fromSeq ≤ toSeq) (hmax : toSeq < u64Max) :
    ∀ {es : List Epoch}, (es.Pairwise fun a b => a.seqAtFlip ≤ b.seqAtFlip) → InOrder (narrowedSpans fromSeq toSeq es)
  | [], _ => ⟨List.Pairwise.nil, by simp [narrowedSpans]⟩
  | e :: es, hord => by
    obtain ⟨hfirst, hrest⟩ := List.pairwise_cons.mp hord
    have ih := inOrder_narrowedSpans hpos hle hmax hrest
    unfold narrowedSpans
    split
    · exact ih
    · rename_i hin
      split
      · refine ⟨List.pairwise_cons.mpr ⟨fun m hm => ?_, ih.1⟩, fun m hm => ?_⟩
        · -- a later stretch begins at a later epoch, and this one ends below it
          cases es with
          | nil => simp [narrowedSpans] at hm
          | cons next later =>
            have hnext : ∀ e' ∈ next :: later, next.seqAtFlip ≤ e'.seqAtFlip := by
              intro e' he'
              rcases List.mem_cons.mp he' with rfl | he'
              · exact le_rfl
              · exact (List.pairwise_cons.mp hrest).1 e' he'
            have hm' := le_of_mem_narrowedSpans hnext hm
            have hend : epochEnd (next :: later) = next.seqAtFlip - 1 := rfl
            rw [hend] at hin ⊢
            show min (next.seqAtFlip - 1) toSeq < m.fromSeq
            omega
        · rcases List.mem_cons.mp hm with rfl | hm
          · have hend : e.seqAtFlip ≤ epochEnd es + 1 ∨ es = [] := by
              cases es with
              | nil => exact .inr rfl
              | cons next later =>
                have := hfirst next List.mem_cons_self
                have hend : epochEnd (next :: later) = next.seqAtFlip - 1 := rfl
                omega
            show max e.seqAtFlip fromSeq ≤ satAdd (min (epochEnd es) toSeq) 1
            unfold satAdd
            rcases hend with hend | rfl
            · omega
            · have hend : epochEnd [] = u64Max := rfl
              omega
          · exact ih.2 m hm
      · exact ih

/-! ### The epochs a stretch makes -/

/-- The epochs of a stretch's transitions. -/
def rebuiltEpochs (n : NarrowedSpan) : List Epoch := [⟨n.fromSeq, .new n.filters⟩, ⟨satAdd n.toSeq 1, .new []⟩]

theorem isFiltered_new_of_ne {filters : List String} (h : filters ≠ []) :
    (FilterPolicy.new filters).isFiltered = true := by
  rw [FilterPolicy.isFiltered_new]
  simpa using h

theorem unfiltered_new : (FilterPolicy.new []).isFiltered = false := rfl

/-- The transitions of stretches in order, after an unfiltered epoch. -/
theorem epochs_observeAllKept : ∀ {l : List NarrowedSpan}, InOrder l → (∀ n ∈ l, n.filters ≠ []) →
    ∀ {k : EpochLog} {x : ℕ}, k.epochs.getLast? = some ⟨x, .new []⟩ → (∀ n ∈ l, x ≤ n.fromSeq) →
    (k.observeAllKept (l.flatMap transitionsOf)).epochs = k.epochs ++ l.flatMap rebuiltEpochs
  | [], _, _, k, _, _, _ => by simp [observeAllKept]
  | n :: l, h, hf, k, x, hlast, hx => by
    have hfiltered := isFiltered_new_of_ne (hf n List.mem_cons_self)
    have hne : ∀ e ∈ k.epochs.getLast?, e.policy ≠ .new n.filters := by
      intro e he hp
      rw [hlast] at he
      obtain rfl := Option.some.inj he
      have : (FilterPolicy.new []).isFiltered = true := by
        rw [show FilterPolicy.new [] = FilterPolicy.new n.filters from hp]
        exact hfiltered
      simp [unfiltered_new] at this
    have hopen : (k.observeKept n.fromSeq (.new n.filters)).epochs = k.epochs ++ [⟨n.fromSeq, .new n.filters⟩] := by
      rw [(observeKept_push hne n.fromSeq).1, pushed, flipFor, hlast]
      simp only [max_eq_left (hx n List.mem_cons_self)]
    have hne' : ∀ e ∈ (k.observeKept n.fromSeq (.new n.filters)).epochs.getLast?, e.policy ≠ .new [] := by
      intro e he hp
      rw [hopen, List.getLast?_concat] at he
      obtain rfl := Option.some.inj he
      rw [show FilterPolicy.new n.filters = FilterPolicy.new [] from hp, unfiltered_new] at hfiltered
      cases hfiltered
    have hclose : ((k.observeKept n.fromSeq (.new n.filters)).observeKept (satAdd n.toSeq 1) (.new [])).epochs =
        k.epochs ++ rebuiltEpochs n := by
      rw [(observeKept_push hne' _).1, pushed, flipFor, hopen, List.getLast?_concat]
      simp only [max_eq_left (h.2 n List.mem_cons_self)]
      rw [List.append_assoc]
      rfl
    have hafter : ∀ m ∈ l, satAdd n.toSeq 1 ≤ m.fromSeq := by
      intro m hm
      exact satAdd_one_le ((List.pairwise_cons.mp h.1).1 m hm)
    have ih := epochs_observeAllKept (l := l) h.cons (fun m hm => hf m (List.mem_cons_of_mem _ hm))
      (k := (k.observeKept n.fromSeq (.new n.filters)).observeKept (satAdd n.toSeq 1) (.new []))
      (by rw [hclose]; simp [rebuiltEpochs]) hafter
    rw [List.flatMap_cons, List.flatMap_cons, observeAllKept_append]
    show (((k.observeKept n.fromSeq (.new n.filters)).observeKept (satAdd n.toSeq 1) (.new [])).observeAllKept _).epochs = _
    rw [ih, hclose, List.append_assoc]

/-- A policy's filters make the policy again. -/
theorem filters_new_filters (filters : List String) :
    (FilterPolicy.new (FilterPolicy.new filters).filters).filters = (FilterPolicy.new filters).filters := by
  have hsorted : ((filters.insertionSort (· ≤ ·)).destutter (· ≠ ·)).Pairwise (· ≤ ·) :=
    (List.pairwise_insertionSort (· ≤ ·) filters).sublist (List.destutter_sublist _ _)
  show ((((filters.insertionSort (· ≤ ·)).destutter (· ≠ ·)).insertionSort (· ≤ ·)).destutter (· ≠ ·)) = _
  rw [hsorted.insertionSort_eq]
  exact List.destutter_idem _ _

/-- **The rebuilt epochs answer with the stretches they were made of.** -/
theorem narrowedSpans_rebuilt (lo hi : ℕ) : ∀ {l : List NarrowedSpan}, (∀ n ∈ l, n.filters ≠ []) →
    (∀ n ∈ l, (FilterPolicy.new n.filters).filters = n.filters) → (∀ n ∈ l, n.toSeq < u64Max) →
    narrowedSpans lo hi (l.flatMap rebuiltEpochs) = l.filterMap (NarrowedSpan.clip lo hi)
  | [], _, _, _ => rfl
  | n :: l, hf, hnew, hmax => by
    have ih := @narrowedSpans_rebuilt lo hi l (fun m hm => hf m (List.mem_cons_of_mem _ hm))
      (fun m hm => hnew m (List.mem_cons_of_mem _ hm)) fun m hm => hmax m (List.mem_cons_of_mem _ hm)
    have hend : satAdd n.toSeq 1 - 1 = n.toSeq := by
      rw [satAdd_one (hmax n List.mem_cons_self)]
      omega
    rw [List.flatMap_cons, List.filterMap_cons]
    show narrowedSpans lo hi (⟨n.fromSeq, .new n.filters⟩ :: ⟨satAdd n.toSeq 1, .new []⟩ :: l.flatMap rebuiltEpochs) = _
    rw [narrowedSpans, if_pos (isFiltered_new_of_ne (hf n List.mem_cons_self)),
      narrowedSpans_of_unfiltered unfiltered_new, ih]
    simp only [epochEnd, List.head?_cons, hend, hnew n List.mem_cons_self]
    unfold NarrowedSpan.clip
    split
    · rfl
    · rfl

/-! ### What is kept of them -/

/-- The most stretches whose epochs an epoch log keeps. -/
def maxStretches : ℕ := 512

/-- The stretches that an epoch log has dropped by the newest. -/
def forgotten (l : List NarrowedSpan) : List NarrowedSpan := l.take (l.length - maxStretches)

/-- The transitions make the origin's epoch and two for each stretch, of which
the newest are kept. -/
theorem epochs_ofTransitions {l : List NarrowedSpan} (h : InOrder l) (hf : ∀ n ∈ l, n.filters ≠ []) {origin : ℕ}
    (horigin : ∀ n ∈ l, origin ≤ n.fromSeq) : (EpochLog.ofTransitions origin (l.flatMap transitionsOf)).epochs =
      ((⟨origin, .new []⟩ : Epoch) :: l.flatMap rebuiltEpochs).drop (2 * l.length + 1 - epochCapacity) := by
  have hbase : ((new origin).observeKept origin (.new [])).epochs = [⟨origin, .new []⟩] := rfl
  have hkept : ((new origin).observeAllKept ((origin, .new []) :: l.flatMap transitionsOf)).epochs =
      ⟨origin, .new []⟩ :: l.flatMap rebuiltEpochs := by
    show (((new origin).observeKept origin (.new [])).observeAllKept (l.flatMap transitionsOf)).epochs = _
    rw [epochs_observeAllKept h hf (by rw [hbase]; rfl) horigin, hbase]
    rfl
  have hlen : ((⟨origin, .new []⟩ : Epoch) :: l.flatMap rebuiltEpochs).length = 2 * l.length + 1 := by
    have htwo : ∀ l : List NarrowedSpan, (l.flatMap rebuiltEpochs).length = 2 * l.length := by
      intro l
      induction l with
      | nil => rfl
      | cons n l ih => rw [List.flatMap_cons, List.length_append, ih, List.length_cons, rebuiltEpochs]; simp; omega
    rw [List.length_cons, htwo]
  have htrim := (trimmed_observeAll origin ((origin, .new []) :: l.flatMap transitionsOf)).epochs
  rw [hkept, hlen] at htrim
  exact htrim

/-- The transitions of a stretch are two epochs. -/
theorem drop_rebuiltEpochs : ∀ (l : List NarrowedSpan) (k : ℕ),
    (l.flatMap rebuiltEpochs).drop (2 * k) = (l.drop k).flatMap rebuiltEpochs
  | _, 0 => rfl
  | [], k + 1 => rfl
  | n :: l, k + 1 => by
    rw [List.flatMap_cons, List.drop_succ_cons, ← drop_rebuiltEpochs l k]
    rfl

/-- A live log, and a window of it that a case records. -/
structure Recorded (live : EpochLog) (fromSeq toSeq : ℕ) : Prop where
  above : 0 < fromSeq
  window : fromSeq ≤ toSeq
  below : toSeq < u64Max
  policies : ∀ e ∈ live.epochs, ∃ filters, e.policy = .new filters

namespace Recorded

variable {live : EpochLog} {fromSeq toSeq lo hi : ℕ} {front : FrontMatter}

theorem inOrder (h : Recorded live fromSeq toSeq) : InOrder (live.coverage fromSeq toSeq).narrowed := by
  rw [coverage_narrowed]
  exact inOrder_narrowedSpans h.above h.window h.below live.ordered

/-- A stretch of the window has filters, and they make its policy. -/
theorem filters (h : Recorded live fromSeq toSeq) {n : NarrowedSpan} (hn : n ∈ (live.coverage fromSeq toSeq).narrowed) :
    n.filters ≠ [] ∧ (FilterPolicy.new n.filters).filters = n.filters := by
  rw [coverage_narrowed] at hn
  obtain ⟨e, he, hf, hn⟩ := filters_of_mem_narrowedSpans hn
  obtain ⟨filters, hp⟩ := h.policies e he
  rw [hn]
  refine ⟨by simpa [FilterPolicy.isFiltered] using hf, ?_⟩
  rw [hp]
  exact filters_new_filters filters

theorem inside {n : NarrowedSpan} (hn : n ∈ (live.coverage fromSeq toSeq).narrowed) :
    fromSeq ≤ n.fromSeq ∧ n.toSeq ≤ toSeq := by
  rw [coverage_narrowed] at hn
  exact inside_of_mem_narrowedSpans hn

/-- The epochs of the rebuilt log: the origin's, and the stretches', while
there is room for all, and otherwise those of the newest stretches. -/
theorem epochs_rebuilt (h : Recorded live fromSeq toSeq)
    (hby : front.narrowedBy = some (live.coverage fromSeq toSeq).narrowed) :
    let l := (live.coverage fromSeq toSeq).narrowed
    let rebuilt := (EpochLog.ofTransitions (fromSeq - 1) (narrowing front)).epochs
    (l.length < maxStretches ∧ rebuilt = ⟨fromSeq - 1, .new []⟩ :: l.flatMap rebuiltEpochs) ∨
      (maxStretches ≤ l.length ∧ rebuilt = (l.drop (l.length - maxStretches)).flatMap rebuiltEpochs) := by
  intro l rebuilt
  have horigin : ∀ n ∈ l, fromSeq - 1 ≤ n.fromSeq := fun n hn => le_trans (Nat.sub_le _ _) (inside hn).1
  have hepochs : rebuilt = ((⟨fromSeq - 1, .new []⟩ : Epoch) :: l.flatMap rebuiltEpochs).drop
      (2 * l.length + 1 - epochCapacity) := by
    rw [← epochs_ofTransitions h.inOrder (fun n hn => (h.filters hn).1) horigin, ← narrowing_eq hby h.inOrder]
  rw [hepochs]
  have hcapacity : epochCapacity = 2 * maxStretches := rfl
  by_cases hroom : l.length < maxStretches
  · refine .inl ⟨hroom, ?_⟩
    rw [show 2 * l.length + 1 - epochCapacity = 0 by omega, List.drop_zero]
  · refine .inr ⟨Nat.le_of_not_lt hroom, ?_⟩
    rw [show 2 * l.length + 1 - epochCapacity = 2 * (l.length - maxStretches) + 1 by omega, List.drop_succ_cons,
      drop_rebuiltEpochs]

/-- **What the rebuilt log answers**: what a range has of the newest
stretches. -/
theorem narrowed_rebuilt (h : Recorded live fromSeq toSeq)
    (hby : front.narrowedBy = some (live.coverage fromSeq toSeq).narrowed) (lo hi : ℕ) :
    ((EpochLog.ofTransitions (fromSeq - 1) (narrowing front)).coverage lo hi).narrowed =
      ((live.coverage fromSeq toSeq).narrowed.drop
        ((live.coverage fromSeq toSeq).narrowed.length - maxStretches)).filterMap (NarrowedSpan.clip lo hi) := by
  have hspans : ∀ l ⊆ (live.coverage fromSeq toSeq).narrowed,
      narrowedSpans lo hi (l.flatMap rebuiltEpochs) = l.filterMap (NarrowedSpan.clip lo hi) := fun l hl =>
    narrowedSpans_rebuilt lo hi (fun n hn => (h.filters (hl hn)).1) (fun n hn => (h.filters (hl hn)).2)
      fun n hn => Nat.lt_of_le_of_lt (inside (hl hn)).2 h.below
  rw [coverage_narrowed]
  rcases h.epochs_rebuilt hby with ⟨hroom, hepochs⟩ | ⟨-, hepochs⟩
  · rw [hepochs, narrowedSpans_of_unfiltered unfiltered_new, hspans _ (List.Subset.refl _),
      Nat.sub_eq_zero_of_le hroom.le, List.drop_zero]
  · rw [hepochs, hspans _ (List.drop_subset _ _)]

/-- A range is answered as it was live **exactly where it meets no stretch but
the newest**. -/
theorem answers_iff (h : Recorded live fromSeq toSeq)
    (hby : front.narrowedBy = some (live.coverage fromSeq toSeq).narrowed) (hlo : fromSeq ≤ lo) (hle : lo ≤ hi)
    (hhi : hi ≤ toSeq) :
    ((EpochLog.ofTransitions (fromSeq - 1) (narrowing front)).coverage lo hi).narrowed = (live.coverage lo hi).narrowed ↔
      ∀ n ∈ forgotten (live.coverage fromSeq toSeq).narrowed, n.clip lo hi = none := by
  have hclip : (live.coverage lo hi).narrowed =
      (live.coverage fromSeq toSeq).narrowed.filterMap (NarrowedSpan.clip lo hi) := by
    rw [coverage_narrowed, coverage_narrowed, narrowedSpans_clip hlo hle hhi]
  rw [h.narrowed_rebuilt hby, hclip]
  generalize (live.coverage fromSeq toSeq).narrowed = l
  conv_lhs => rhs; rw [← List.take_append_drop (l.length - maxStretches) l, List.filterMap_append]
  rw [eq_comm, List.append_left_eq_self, List.filterMap_eq_nil_iff]
  rfl

/-- Any other range is **not vouched for**. -/
theorem covered_of_answers (h : Recorded live fromSeq toSeq)
    (hby : front.narrowedBy = some (live.coverage fromSeq toSeq).narrowed) {n : NarrowedSpan}
    (hn : n ∈ forgotten (live.coverage fromSeq toSeq).narrowed) (hmeets : n.clip lo hi ≠ none) :
    ((EpochLog.ofTransitions (fromSeq - 1) (narrowing front)).coverage lo hi).covered = false := by
  rcases h.epochs_rebuilt hby with ⟨hroom, -⟩ | ⟨hmany, hepochs⟩
  · rw [forgotten, Nat.sub_eq_zero_of_le hroom.le, List.take_zero] at hn
    exact absurd hn List.not_mem_nil
  have horder := h.inOrder
  generalize (live.coverage fromSeq toSeq).narrowed = l at hn horder hmany hepochs
  -- the first epoch kept begins above the stretch
  cases hkept : l.drop (l.length - maxStretches) with
  | nil =>
    have hlen := congrArg List.length hkept
    rw [List.length_drop, List.length_nil] at hlen
    unfold maxStretches at *
    omega
  | cons m kept =>
    have hapart : n.toSeq < m.fromSeq := by
      have hpair := horder.1
      rw [← List.take_append_drop (l.length - maxStretches) l, hkept] at hpair
      exact (List.pairwise_append.mp hpair).2.2 n hn m List.mem_cons_self
    have hbelow : lo ≤ n.toSeq := by
      unfold NarrowedSpan.clip at hmeets
      split_ifs at hmeets with hout
      · exact absurd rfl hmeets
      · omega
    rw [hkept] at hepochs
    unfold EpochLog.coverage
    rw [hepochs]
    show decide (m.fromSeq ≤ lo) = false
    exact decide_eq_false (by omega)

end Recorded

end Cases
end Logmon
