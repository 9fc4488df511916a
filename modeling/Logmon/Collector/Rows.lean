/-
# Rows and totals

Two caps fold into overflow ids: each interner has one for its values, and
the group tuples have one of their own. Whatever they fold, every span is
counted once in the total, once under its name and once under a tuple, so the
rows add up to the total (`rows_reconcile`).

A tuple of overflow ids is also the own tuple of a span whose every value
overflowed. By then the row for folded tuples exists: an interner that is
full has given more values than there are rows, so tuples folded before
(`LiveWindow.GroupRows.own_ne_overflow`). This is why the flag is set only by
spans whose own tuple was another one.

Key definitions: `LiveWindow.NameRows`, `LiveWindow.GroupRows`,
`LiveView.Reconciles`.
Key theorems: `LiveWindow.groupRows_ingest`, `LiveWindow.capped_iff`,
`rows_reconcile`.
-/
import Logmon.Collector.Live
import Mathlib.Data.List.Perm.Subperm

namespace Logmon

open Lib

variable {S : Type}

namespace LiveWindow

/-! ### Sums -/

/-- What the rows of a map add up to. -/
def sumRows {K : Type} (m : FMap K (ExactStats S)) : Tally := (m.entries.map fun q => q.2.tally).sum

theorem sumRows_upsert {K : Type} [DecidableEq K] (ops : SketchOps S) (m : FMap K (ExactStats S)) (k : K)
    (span : SpanEntry) :
    sumRows (m.upsert k (.new ops) (ExactStats.record ops (classify span) (isError span))) =
      sumRows m + Tally.ofSpan span :=
  FMap.sum_upsert ExactStats.tally m k _ _ _ (ExactStats.tally_new ops) (ExactStats.tally_record ops span)

theorem sumRows_perName (ops : SketchOps S) (defn : CollectorDef) (spans : List SpanEntry) :
    sumRows (ofSpans ops defn spans).perName = (spans.map Tally.ofSpan).sum := by
  induction spans using List.reverseRecOn with
  | nil => rfl
  | append_singleton spans span ih =>
    rw [ofSpans_concat, List.map_append, List.sum_append, ← ih]
    simp only [ingest, sumRows_upsert, List.map_singleton, List.sum_singleton]

theorem sumRows_perGroup (ops : SketchOps S) (defn : CollectorDef) (hk : defn.groupKeys ≠ []) (spans : List SpanEntry) :
    sumRows (ofSpans ops defn spans).perGroup = (spans.map Tally.ofSpan).sum := by
  have hne : defn.groupKeys.isEmpty = false := by simpa using hk
  induction spans using List.reverseRecOn with
  | nil => rfl
  | append_singleton spans span ih =>
    rw [ofSpans_concat, List.map_append, List.sum_append, ← ih]
    simp only [ingest, hne, Bool.false_eq_true, if_false, sumRows_upsert, List.map_singleton, List.sum_singleton]

/-! ### How many rows there are -/

/-- Every name row stands under the overflow id or an id the table gave. -/
structure NameRows (w : LiveWindow S) : Prop where
  cap : w.names.cap = defaultNameCap
  ids : ∀ id ∈ w.perName.entries.map Prod.fst,
    id = overflowId ∨ firstRealId ≤ id ∧ id < firstRealId + w.names.toValue.length

theorem nameRows_ingest (ops : SketchOps S) (keys : List String) {w : LiveWindow S} (h : w.NameRows)
    (span : SpanEntry) : (w.ingest ops keys span).NameRows := by
  refine ⟨(Interner.cap_intern _ _).trans h.cap, fun id hid => ?_⟩
  rcases FMap.mem_keys_upsert.mp hid with rfl | hid
  · exact Interner.intern_fst_lt _ _
  · have hgrow := w.names.length_le_intern span.name
    rcases h.ids id hid with h0 | ⟨hlo, hhi⟩
    · exact .inl h0
    · exact .inr ⟨hlo, lt_of_lt_of_le hhi (Nat.add_le_add_left hgrow _)⟩

theorem nameRows_ofSpans (ops : SketchOps S) (defn : CollectorDef) (spans : List SpanEntry) :
    (ofSpans ops defn spans).NameRows := by
  induction spans using List.reverseRecOn with
  | nil => exact ⟨rfl, fun _ h => (nomatch h)⟩
  | append_singleton spans span ih =>
    rw [ofSpans_concat]
    exact nameRows_ingest ops _ ih span

theorem NameRows.length_le {w : LiveWindow S} (h : w.NameRows) : w.perName.entries.length ≤ defaultNameCap + 1 := by
  have hsub : w.perName.entries.map Prod.fst ⊆
      overflowId :: (List.range defaultNameCap).map (firstRealId + ·) := by
    intro id hid
    have hcap := w.names.within
    rw [h.cap] at hcap
    rcases h.ids id hid with h0 | ⟨hlo, hhi⟩
    · exact h0 ▸ List.mem_cons_self
    · exact List.mem_cons_of_mem _ (List.mem_map.mpr ⟨id - firstRealId, List.mem_range.mpr (by omega), by omega⟩)
  have hlen := (w.perName.nodup.subperm hsub).length_le
  simpa using hlen

/-- The group rows, while the first key has its interner. Until the overflow
tuple has a row, every value the first interner gave stands at the head of
one. -/
structure GroupRows (w : LiveWindow S) (keys : List String) : Prop where
  length_groupValues : w.groupValues.length = keys.length
  caps : ∀ i ∈ w.groupValues, i.cap = defaultGroupValueCap
  length_le : w.perGroup.entries.length ≤ maxGroupTuples + 1
  room : overflowTuple keys ∉ w.perGroup.entries.map Prod.fst → w.perGroup.entries.length ≤ maxGroupTuples
  issued : overflowTuple keys ∉ w.perGroup.entries.map Prod.fst → ∀ i rest, w.groupValues = i :: rest →
    ∀ n < i.toValue.length, ∃ row ∈ w.perGroup.entries.map Prod.fst, row.head? = some (firstRealId + n)

theorem length_groupIds (attributes : List (String × JsonValue)) (keys : List String) (values : List Interner) :
    (groupIds attributes keys values).2.length = values.length := by
  induction keys generalizing values with
  | nil => cases values <;> rfl
  | cons key keys ih =>
    cases values with
    | nil => rfl
    | cons v rest =>
      show (groupIds attributes keys rest).2.length + 1 = rest.length + 1
      rw [ih]

/-- What one group key can do: leave its interner, or intern a value. -/
theorem groupId_cases (attributes : List (String × JsonValue)) (key : String) (values : Interner) :
    groupId attributes key values = (absentId, values) ∨ ∃ s, groupId attributes key values = values.intern s := by
  unfold groupId
  split
  · exact .inl rfl
  · split
    · exact .inl rfl
    · exact .inr ⟨_, rfl⟩

theorem caps_groupIds (attributes : List (String × JsonValue)) {c : ℕ} :
    ∀ (keys : List String) (values : List Interner), (∀ i ∈ values, i.cap = c) →
      ∀ i ∈ (groupIds attributes keys values).2, i.cap = c
  | [], values, h, i, hi => h i (by cases values <;> exact hi)
  | key :: keys, [], h, i, hi => (nomatch hi)
  | key :: keys, v :: rest, h, i, hi => by
    rcases List.mem_cons.mp hi with rfl | hi
    · have hv := h v List.mem_cons_self
      rcases groupId_cases attributes key v with he | ⟨s, he⟩
      · rw [he]
        exact hv
      · rw [he, Interner.cap_intern]
        exact hv
    · exact caps_groupIds attributes keys rest (fun x hx => h x (List.mem_cons_of_mem _ hx)) i hi

/-- While the overflow tuple has no row, the first interner has given fewer
values than it may. -/
theorem GroupRows.length_first_le {w : LiveWindow S} {keys : List String} (h : w.GroupRows keys)
    (hno : overflowTuple keys ∉ w.perGroup.entries.map Prod.fst) {i : Interner} {rest : List Interner}
    (hi : w.groupValues = i :: rest) : i.toValue.length ≤ maxGroupTuples := by
  have hnodup : ((List.range i.toValue.length).map fun n => some (firstRealId + n)).Nodup := by
    refine List.Nodup.map (fun a b hab => ?_) List.nodup_range
    have := Option.some.inj hab
    omega
  have hsub : ((List.range i.toValue.length).map fun n => some (firstRealId + n)) ⊆
      (w.perGroup.entries.map Prod.fst).map List.head? := by
    intro x hx
    obtain ⟨n, hn, rfl⟩ := List.mem_map.mp hx
    obtain ⟨row, hrow, hhead⟩ := h.issued hno i rest hi n (List.mem_range.mp hn)
    exact List.mem_map.mpr ⟨row, hrow, hhead⟩
  have hlen := (hnodup.subperm hsub).length_le
  simp only [List.length_map, List.length_range] at hlen
  exact le_trans hlen (h.room hno)

/-- **A tuple that folds is not the overflow tuple**: while that has no row,
the first interner is far from full and gives a real id. -/
theorem GroupRows.own_ne_overflow {w : LiveWindow S} {keys : List String} (h : w.GroupRows keys) {span : SpanEntry}
    (hf : w.folds keys span = true) : w.ownTuple keys span ≠ overflowTuple keys := by
  simp only [folds, Bool.and_eq_true, Bool.not_eq_true', decide_eq_true_eq] at hf
  obtain ⟨hkeys, hknown, -⟩ := hf
  intro heq
  have hno : overflowTuple keys ∉ w.perGroup.entries.map Prod.fst := by
    rw [FMap.mem_keys_iff, ← heq, hknown]
    exact Bool.false_ne_true
  have hlen := h.length_groupValues
  cases keys with
  | nil => cases hkeys
  | cons key keys =>
    cases hv : w.groupValues with
    | nil => rw [hv] at hlen; cases hlen
    | cons i rest =>
      have hfew := h.length_first_le hno hv
      have hcap := h.caps i (by rw [hv]; exact List.mem_cons_self)
      have hhead : (groupId span.attributes key i).1 = overflowId := by
        have := congrArg List.head? heq
        simpa [ownTuple, overflowTuple, groupIds, hv, List.replicate_succ] using this
      rcases groupId_cases span.attributes key i with he | ⟨s, he⟩
      · rw [he] at hhead
        cases hhead
      · rw [he] at hhead
        obtain ⟨id, hs, hi⟩ | ⟨-, hfull, -⟩ | ⟨-, -, hi, -⟩ := i.intern_cases s
        · have := (i.id_real s id hs).1
          rw [hi] at hhead
          simp only [firstRealId, overflowId] at this hhead
          omega
        · rw [hcap] at hfull
          simp only [maxGroupTuples, defaultGroupValueCap] at hfew hfull
          omega
        · rw [hi] at hhead
          simp only [firstRealId, overflowId] at hhead
          omega

/-- The rows after a span: its tuple's and those there were. -/
theorem mem_rows_ingest (ops : SketchOps S) {keys : List String} (hk : keys.isEmpty = false) (w : LiveWindow S)
    (span : SpanEntry) (row : List ℕ) :
    row ∈ (w.ingest ops keys span).perGroup.entries.map Prod.fst ↔
      row = w.tupleOf keys span ∨ row ∈ w.perGroup.entries.map Prod.fst := by
  simp only [ingest, hk, Bool.false_eq_true, if_false]
  exact FMap.mem_keys_upsert

theorem length_rows_ingest (ops : SketchOps S) {keys : List String} (hk : keys.isEmpty = false) (w : LiveWindow S)
    (span : SpanEntry) :
    (w.ingest ops keys span).perGroup.entries.length =
      if (w.perGroup.get? (w.tupleOf keys span)).isSome then w.perGroup.entries.length
      else w.perGroup.entries.length + 1 := by
  simp only [ingest, hk, Bool.false_eq_true, if_false]
  exact FMap.length_upsert _ _ _ _

/-- A value the first interner gave in this ingest is the head of the span's
own tuple. -/
theorem issued_ingest {attributes : List (String × JsonValue)} {key : String} {keys : List String} {i : Interner}
    {rest : List Interner} {n : ℕ} (hn : n < (groupId attributes key i).2.toValue.length) :
    n < i.toValue.length ∨
      (groupIds attributes (key :: keys) (i :: rest)).1.head? = some (firstRealId + n) := by
  rcases groupId_cases attributes key i with he | ⟨s, he⟩
  · rw [he] at hn
    exact .inl hn
  · obtain ⟨id, -, hi⟩ | ⟨-, -, -, -, hi⟩ | ⟨-, -, hid, -, hi⟩ := i.intern_cases s
    · rw [he, hi] at hn
      exact .inl hn
    · rw [he, hi] at hn
      exact .inl hn
    · rw [he, hi, List.length_append, List.length_singleton] at hn
      by_cases hlt : n < i.toValue.length
      · exact .inl hlt
      · have hlast : n = i.toValue.length := by omega
        refine .inr ?_
        show some (groupId attributes key i).1 = _
        rw [he, hid, hlast]

theorem groupRows_ingest (ops : SketchOps S) {keys : List String} {w : LiveWindow S} (h : w.GroupRows keys)
    (span : SpanEntry) : (w.ingest ops keys span).GroupRows keys := by
  have hvalues : (w.ingest ops keys span).groupValues = (groupIds span.attributes keys w.groupValues).2 := rfl
  have hlen : (w.ingest ops keys span).groupValues.length = keys.length := by
    rw [hvalues, length_groupIds, h.length_groupValues]
  have hcaps : ∀ i ∈ (w.ingest ops keys span).groupValues, i.cap = defaultGroupValueCap :=
    caps_groupIds span.attributes keys w.groupValues h.caps
  cases hk : keys.isEmpty with
  | true =>
    have hrows : (w.ingest ops keys span).perGroup = w.perGroup := by simp [ingest, hk]
    obtain rfl : keys = [] := List.isEmpty_iff.mp hk
    refine ⟨hlen, hcaps, hrows ▸ h.length_le, hrows ▸ h.room, fun _ i rest hi => ?_⟩
    rw [hi] at hlen
    cases hlen
  | false =>
    have hmem := mem_rows_ingest ops hk w span
    have hrows := length_rows_ingest ops hk w span
    cases hf : w.folds keys span with
    | true =>
      -- the span is counted under the overflow tuple, which has a row from here on
      have htuple : w.tupleOf keys span = overflowTuple keys := by rw [tupleOf, hf, if_pos rfl]
      have hin : overflowTuple keys ∈ (w.ingest ops keys span).perGroup.entries.map Prod.fst :=
        (hmem _).mpr (.inl htuple.symm)
      refine ⟨hlen, hcaps, ?_, fun hno => absurd hin hno, fun hno => absurd hin hno⟩
      rw [hrows, htuple]
      by_cases hknown : (w.perGroup.get? (overflowTuple keys)).isSome
      · rw [if_pos hknown]
        exact h.length_le
      · rw [if_neg hknown]
        have := h.room (by rw [FMap.mem_keys_iff]; exact hknown)
        omega
    | false =>
      have htuple : w.tupleOf keys span = w.ownTuple keys span := by rw [tupleOf, hf, if_neg Bool.false_ne_true]
      have hroom : (w.perGroup.get? (w.ownTuple keys span)).isSome = false →
          w.perGroup.entries.length < maxGroupTuples := by
        intro hnew
        simpa [folds, hk, hnew] using hf
      rw [htuple] at hrows
      refine ⟨hlen, hcaps, ?_, fun hno => ?_, fun hno i rest hi n hn => ?_⟩
      · rw [hrows]
        have := h.length_le
        split
        · exact this
        · rename_i hnew
          have := hroom (Bool.eq_false_of_not_eq_true hnew)
          omega
      · rw [hrows]
        have hbefore := h.room fun hin => hno ((hmem _).mpr (.inr hin))
        split
        · exact hbefore
        · rename_i hnew
          exact hroom (Bool.eq_false_of_not_eq_true hnew)
      · have hno' : overflowTuple keys ∉ w.perGroup.entries.map Prod.fst := fun hin => hno ((hmem _).mpr (.inr hin))
        cases keys with
        | nil => cases hk
        | cons key keys =>
          cases hv : w.groupValues with
          | nil =>
            have := h.length_groupValues
            rw [hv] at this
            cases this
          | cons v rest' =>
            rw [hvalues, hv] at hi
            obtain ⟨rfl, -⟩ := List.cons.inj hi
            rcases @issued_ingest span.attributes key keys v rest' n hn with hlt | hhead
            · obtain ⟨row, hrow, hid⟩ := h.issued hno' v rest' hv n hlt
              exact ⟨row, (hmem row).mpr (.inr hrow), hid⟩
            · refine ⟨w.ownTuple (key :: keys) span, (hmem _).mpr (.inl htuple.symm), ?_⟩
              rw [ownTuple, hv]
              exact hhead

theorem groupRows_ofSpans (ops : SketchOps S) (defn : CollectorDef) (spans : List SpanEntry) :
    (ofSpans ops defn spans).GroupRows defn.groupKeys := by
  induction spans using List.reverseRecOn with
  | nil =>
    refine ⟨List.length_map _, fun i hi => ?_, Nat.zero_le _, fun _ => Nat.zero_le _, fun _ i rest hi n hn => ?_⟩
    · obtain ⟨-, -, rfl⟩ := List.mem_map.mp hi
      rfl
    · have hfirst : i ∈ defn.groupKeys.map fun _ => Interner.new defaultGroupValueCap := by
        have : defn.groupKeys.map (fun _ => Interner.new defaultGroupValueCap) = i :: rest := hi
        rw [this]
        exact List.mem_cons_self
      obtain ⟨-, -, rfl⟩ := List.mem_map.mp hfirst
      cases hn
  | append_singleton spans span ih =>
    rw [ofSpans_concat]
    exact groupRows_ingest ops ih span

/-! ### When the flag is set -/

/-- Some span, in the window as it stood when it came, had a tuple of its own
and was counted under the overflow tuple. -/
def Folded (ops : SketchOps S) (defn : CollectorDef) (spans : List SpanEntry) : Prop :=
  ∃ before span, before ++ [span] <+: spans ∧
    (ofSpans ops defn before).ownTuple defn.groupKeys span ≠ overflowTuple defn.groupKeys ∧
    (ofSpans ops defn before).tupleOf defn.groupKeys span = overflowTuple defn.groupKeys

/-- Such a span is one whose tuple found neither a row nor room. -/
theorem folds_iff (ops : SketchOps S) (defn : CollectorDef) (spans : List SpanEntry) (span : SpanEntry) :
    (ofSpans ops defn spans).folds defn.groupKeys span = true ↔
      (ofSpans ops defn spans).ownTuple defn.groupKeys span ≠ overflowTuple defn.groupKeys ∧
      (ofSpans ops defn spans).tupleOf defn.groupKeys span = overflowTuple defn.groupKeys := by
  constructor
  · intro hf
    exact ⟨(groupRows_ofSpans ops defn spans).own_ne_overflow hf, by rw [tupleOf, hf, if_pos rfl]⟩
  · rintro ⟨hown, htuple⟩
    by_contra hf
    rw [tupleOf, if_neg hf] at htuple
    exact hown htuple

theorem capped_iff (ops : SketchOps S) (defn : CollectorDef) (spans : List SpanEntry) :
    (ofSpans ops defn spans).groupTuplesCapped = true ↔ Folded ops defn spans := by
  induction spans using List.reverseRecOn with
  | nil =>
    constructor
    · intro h
      cases h
    · rintro ⟨before, span, hpre, -⟩
      exact absurd (List.prefix_nil.mp hpre) (by simp)
  | append_singleton spans span ih =>
    have hstep : (ofSpans ops defn (spans ++ [span])).groupTuplesCapped =
        ((ofSpans ops defn spans).groupTuplesCapped || (ofSpans ops defn spans).folds defn.groupKeys span) := by
      rw [ofSpans_concat]
      rfl
    rw [hstep, Bool.or_eq_true, ih, folds_iff]
    constructor
    · rintro (⟨before, x, hpre, hfold⟩ | hfold)
      · exact ⟨before, x, hpre.trans (List.prefix_append _ _), hfold⟩
      · exact ⟨spans, span, List.prefix_refl _, hfold⟩
    · rintro ⟨before, x, hpre, hfold⟩
      rcases List.prefix_concat_iff.mp hpre with heq | hpre
      · obtain ⟨rfl, rfl⟩ := List.append_singleton_inj.mp heq
        exact .inr hfold
      · exact .inl ⟨before, x, hpre, hfold⟩

end LiveWindow

/-! ### Every state of every run -/

/-- The rows of a view over a window's spans add up, stay within their caps,
and the flag tells whether a tuple was folded. -/
structure LiveView.Reconciles (v : LiveView S) (ops : SketchOps S) (defn : CollectorDef) (spans : List SpanEntry) :
    Prop where
  names : LiveWindow.sumRows v.perName = v.total.tally
  groups : defn.groupKeys ≠ [] → LiveWindow.sumRows v.perGroup = v.total.tally
  name_rows : v.perName.entries.length ≤ defaultNameCap + 1
  group_rows : v.perGroup.entries.length ≤ maxGroupTuples + 1
  capped_iff : v.groupTuplesCapped = true ↔ LiveWindow.Folded ops defn spans

/-- **Rows reconcile with totals.** In every state of every run of a collector,
and in every window it has taken, whatever the names, values and tuples were. -/
theorem rows_reconcile (ops : SketchOps S) (defn : CollectorDef) (now : ℤ) (acts : List CollectorAct) :
    ∀ x ∈ ((LiveRun.start ops defn now).run ops acts).windows, x.2.Reconciles ops defn x.1 := by
  intro x hx
  have hshows := (LiveRun.inv_run (LiveRun.inv_start ops defn now) acts).shows x hx
  have hgroups := LiveWindow.groupRows_ofSpans ops defn x.1
  refine ⟨?_, fun hk => ?_, ?_, ?_, ?_⟩
  · rw [hshows.perName, hshows.total, LiveWindow.sumRows_perName, LiveWindow.tally_ofSpans]
  · rw [hshows.perGroup, hshows.total, LiveWindow.sumRows_perGroup ops defn hk, LiveWindow.tally_ofSpans]
  · rw [hshows.perName]
    exact (LiveWindow.nameRows_ofSpans ops defn x.1).length_le
  · rw [hshows.perGroup]
    exact hgroups.length_le
  · rw [hshows.groupTuplesCapped]
    exact LiveWindow.capped_iff ops defn x.1

/-- A query of a table, on a host unless it states none. -/
def queryOf (name table : String) (host : Option String) (stop : ℤ) (status : SpanStatus) : SpanEntry :=
  { spanWith "db" table with
    name, startTime := 1000, endTime := stop, status
    attributes := ("db", .string table) :: (host.map fun h => ("host", .string h)).toList }

/-- Queries of two names, two tables and two hosts or none, one of them an
error, one negative and one without an end, and a snapshot that resets. -/
def queries : List CollectorAct :=
  [.ingest (queryOf "read" "users" (some "a") 1400 .ok), .ingest (queryOf "read" "orders" none 1100 (.error "timeout")),
    .ingest (queryOf "write" "users" (some "a") 900 .ok), .snapshot true 2000,
    .ingest (queryOf "write" "orders" (some "b") 0 .unset)]

/-- A collector of two group keys, with a sketch that keeps its values. -/
theorem rows_reconcile_grouped :
    let ops : SketchOps (List ℤ) := ⟨[], fun values v => values ++ [v]⟩
    let defn : CollectorDef := { CollectorDef.sample "perf" 0 with groupKeys := ["db", "host"] }
    let r := (LiveRun.start ops defn 0).run ops queries
    r.windows.map (fun x => x.2.total.tally) = [⟨3, 500, 1, 1, 0⟩, ⟨1, 0, 0, 0, 1⟩] ∧
      ∃ x ∈ r.windows, x.2.perName.entries.length = 2 ∧ x.2.perGroup.entries.length = 2 ∧ x.2.Reconciles ops defn x.1 := by
  intro ops defn r
  refine ⟨by decide +kernel, ?_⟩
  have hwindow : r.windows.any (fun x => decide (x.2.perName.entries.length = 2 ∧ x.2.perGroup.entries.length = 2)) =
      true := by decide +kernel
  obtain ⟨x, hx, hrows⟩ := List.any_eq_true.mp hwindow
  obtain ⟨hnames, hgroups⟩ := of_decide_eq_true hrows
  exact ⟨x, hx, hnames, hgroups, rows_reconcile ops defn 0 queries x hx⟩

end Logmon
