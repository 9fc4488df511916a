/-
# A write as one offer

Every write offers the ring an ascending batch of fresh records at or above
the floors. Whatever path it takes (the push of a newest record, the
split-merge-evict of `merge_locked`), it leaves the ring as `storeAll` does:
merge the batch into the held records, let the lowest past capacity leave, and
number the late ones kept. So each fact about the ring is proved once, of
`storeAll`.

The invariant `WF`: the held records are strictly ascending, at most capacity
many, at or above both floors, the trace index lists them, and the late maps
are inverse maps on held records.

Key definitions: `LateMaps`, `WF`, `storeAll`, `offer`.
Key theorems: `storeBatch_eq_storeAll`, `insertSorted_eq_offer`,
`append_eq_offer`, `WF.offer`, `WF.clearThrough`.
-/
import Logmon.Store.Ring

namespace Logmon

open Lib

namespace InMemoryStore

/-! ### The late maps -/

/-- `late` and `lateBySeq` are inverse, and every number in use was handed
out. -/
structure LateMaps (r : InMemoryStore) : Prop where
  inverse : ∀ n s, r.late.get? n = some s ↔ r.lateBySeq.get? s = some n
  handed : ∀ n s, r.late.get? n = some s → 1 ≤ n ∧ n ≤ r.lateCounter

theorem leave_lateBySeq (r : InMemoryStore) (e : LogEntry) (s : ℕ) :
    (r.leave e).lateBySeq.get? s = if s = e.seq then none else r.lateBySeq.get? s := by
  cases h : r.lateBySeq.get? e.seq with
  | none =>
    have : (r.leave e).lateBySeq = r.lateBySeq := by simp [leave, unindex, forgetLate, loseThrough, h]
    rw [this]
    split_ifs with hs
    · rw [hs, h]
    · rfl
  | some n =>
    have : (r.leave e).lateBySeq = r.lateBySeq.erase e.seq := by
      simp [leave, unindex, forgetLate, loseThrough, h]
    rw [this, OrdMap.get?_erase]

theorem LateMaps.leave_late {r : InMemoryStore} (h : r.LateMaps) (e : LogEntry) (n : ℕ) :
    (r.leave e).late.get? n = if r.late.get? n = some e.seq then none else r.late.get? n := by
  cases hs : r.lateBySeq.get? e.seq with
  | none =>
    have heq : (r.leave e).late = r.late := by simp [leave, unindex, forgetLate, loseThrough, hs]
    have hne : ¬ r.late.get? n = some e.seq := fun hn => by simp [(h.inverse n e.seq).mp hn] at hs
    rw [heq, if_neg hne]
  | some m =>
    have heq : (r.leave e).late = r.late.erase m := by simp [leave, unindex, forgetLate, loseThrough, hs]
    have hm : r.late.get? m = some e.seq := (h.inverse m e.seq).mpr hs
    rw [heq, OrdMap.get?_erase]
    by_cases hn : r.late.get? n = some e.seq
    · have hnm : some n = some m := by rw [← hs, ← (h.inverse n e.seq).mp hn]
      rw [if_pos (Option.some.inj hnm), if_pos hn]
    · have hnm : n ≠ m := fun hnm => hn (hnm ▸ hm)
      rw [if_neg hnm, if_neg hn]

theorem LateMaps.leave {r : InMemoryStore} (h : r.LateMaps) (e : LogEntry) : (r.leave e).LateMaps where
  inverse n s := by
    rw [h.leave_late, leave_lateBySeq]
    by_cases hs : s = e.seq
    · subst hs
      by_cases hn : r.late.get? n = some e.seq <;> simp [hn]
    · rw [if_neg hs, ← h.inverse n s]
      have hs' : ¬ e.seq = s := fun h => hs h.symm
      by_cases hn : r.late.get? n = some e.seq <;> simp [hn, hs']
  handed n s hn := by
    rw [h.leave_late] at hn
    rw [leave_lateCounter]
    split_ifs at hn
    exact h.handed n s hn

theorem leaveAll_lateBySeq (s : ℕ) : ∀ (gone : List LogEntry) (r : InMemoryStore),
    (r.leaveAll gone).lateBySeq.get? s = if s ∈ gone.map LogEntry.seq then none else r.lateBySeq.get? s
  | [], _ => by simp [leaveAll]
  | e :: gone, r => by
    have ih := leaveAll_lateBySeq s gone (r.leave e)
    have hfold : r.leaveAll (e :: gone) = (r.leave e).leaveAll gone := rfl
    rw [hfold, ih, leave_lateBySeq]
    by_cases h1 : s ∈ gone.map LogEntry.seq
    · simp [h1]
    · by_cases h2 : s = e.seq <;> simp [h1, h2]

theorem LateMaps.leaveAll : ∀ {gone : List LogEntry} {r : InMemoryStore},
    r.LateMaps → (r.leaveAll gone).LateMaps
  | [], _, h => h
  | e :: _, r, h => LateMaps.leaveAll (r := r.leave e) (h.leave e)

/-! ### Numbering -/

/-- Late numbers for `seqs`, in order. -/
def numberAll (r : InMemoryStore) (seqs : List ℕ) : InMemoryStore := seqs.foldl numberOne r

/-- What numbering does not touch. -/
theorem numberAll_frame : ∀ (seqs : List ℕ) (r : InMemoryStore),
    (r.numberAll seqs).entries = r.entries ∧ (r.numberAll seqs).traceIndex = r.traceIndex ∧
      (r.numberAll seqs).maxCapacity = r.maxCapacity ∧ (r.numberAll seqs).totalStored = r.totalStored ∧
      (r.numberAll seqs).totalReceived = r.totalReceived ∧ (r.numberAll seqs).lostBelow = r.lostBelow ∧
      (r.numberAll seqs).admitFrom = r.admitFrom
  | [], _ => ⟨rfl, rfl, rfl, rfl, rfl, rfl, rfl⟩
  | s :: seqs, r => numberAll_frame seqs (r.numberOne s)

theorem numberAll_lateCounter : ∀ (seqs : List ℕ) (r : InMemoryStore),
    (r.numberAll seqs).lateCounter = r.lateCounter + seqs.length
  | [], _ => rfl
  | s :: seqs, r => by
    have := numberAll_lateCounter seqs (r.numberOne s)
    simp only [numberAll, List.foldl_cons, List.length_cons] at this ⊢
    rw [this]
    simp only [numberOne]
    omega

theorem LateMaps.numberOne {r : InMemoryStore} (h : r.LateMaps) {s : ℕ} (hs : r.lateBySeq.get? s = none) :
    (r.numberOne s).LateMaps where
  inverse n t := by
    simp only [InMemoryStore.numberOne, OrdMap.get?_insert]
    have hnew : r.late.get? (r.lateCounter + 1) = none := by
      cases hn : r.late.get? (r.lateCounter + 1) with
      | none => rfl
      | some t => exact absurd (h.handed _ _ hn).2 (by omega)
    by_cases hn : n = r.lateCounter + 1 <;> by_cases ht : t = s
    · simp [hn, ht]
    · have ht' : ¬ s = t := fun h => ht h.symm
      subst hn
      have := h.inverse (r.lateCounter + 1) t
      simp only [hnew] at this
      simp [ht, ht', ← this]
    · have hn' : ¬ r.lateCounter + 1 = n := fun h => hn h.symm
      subst ht
      have := h.inverse n t
      simp [hs] at this
      simp [hn, hn', this]
    · simpa [hn, ht] using h.inverse n t
  handed n t hn := by
    simp only [InMemoryStore.numberOne, OrdMap.get?_insert] at hn ⊢
    split_ifs at hn with h1
    · omega
    · have := h.handed n t hn
      omega

theorem numberOne_lateBySeq (r : InMemoryStore) (s t : ℕ) : (r.numberOne s).lateBySeq.get? t =
    if t = s then some (r.lateCounter + 1) else r.lateBySeq.get? t := by
  simp [numberOne, OrdMap.get?_insert]

theorem LateMaps.numberAll : ∀ {seqs : List ℕ} {r : InMemoryStore}, r.LateMaps → seqs.Nodup →
    (∀ s ∈ seqs, r.lateBySeq.get? s = none) → (r.numberAll seqs).LateMaps
  | [], _, h, _, _ => h
  | s :: seqs, r, h, hnd, hnone => by
    obtain ⟨hs, hnd'⟩ := List.nodup_cons.mp hnd
    refine LateMaps.numberAll (r := r.numberOne s) (h.numberOne (hnone s List.mem_cons_self)) hnd' fun t ht => ?_
    have hts : t ≠ s := fun h => hs (h ▸ ht)
    rw [numberOne_lateBySeq, if_neg hts]
    exact hnone t (List.mem_cons_of_mem _ ht)

/-- Numbering adds the numbers past the counter, in the order of `seqs`. -/
theorem numberAll_lateBySeq (t n : ℕ) : ∀ {seqs : List ℕ} {r : InMemoryStore}, seqs.Nodup →
    ((r.numberAll seqs).lateBySeq.get? t = some n ↔
      (∃ i, seqs[i]? = some t ∧ n = r.lateCounter + 1 + i) ∨ (t ∉ seqs ∧ r.lateBySeq.get? t = some n))
  | [], r, _ => by simp [numberAll]
  | s :: seqs, r, hnd => by
    obtain ⟨hs, hnd'⟩ := List.nodup_cons.mp hnd
    have hfold : r.numberAll (s :: seqs) = (r.numberOne s).numberAll seqs := rfl
    have hc : (r.numberOne s).lateCounter = r.lateCounter + 1 := rfl
    rw [hfold, numberAll_lateBySeq t n hnd', numberOne_lateBySeq, hc]
    by_cases hts : t = s
    · subst hts
      have hnone : ∀ i, seqs[i]? ≠ some t := fun i hi => hs (List.mem_of_getElem? hi)
      constructor
      · rintro (⟨i, hi, -⟩ | ⟨-, h⟩)
        · exact absurd hi (hnone i)
        · rw [if_pos rfl] at h
          exact Or.inl ⟨0, rfl, by simpa using (Option.some.inj h).symm⟩
      · rintro (⟨i, hi, rfl⟩ | ⟨h, -⟩)
        · cases i with
          | zero => exact Or.inr ⟨hs, by simp⟩
          | succ i => exact absurd (by simpa using hi) (hnone i)
        · simp at h
    · rw [if_neg hts]
      constructor
      · rintro (⟨i, hi, rfl⟩ | ⟨h1, h2⟩)
        · exact Or.inl ⟨i + 1, by simpa using hi, by omega⟩
        · exact Or.inr ⟨by simp [hts, h1], h2⟩
      · rintro (⟨i, hi, rfl⟩ | ⟨h1, h2⟩)
        · cases i with
          | zero => exact absurd (by simpa using hi.symm) hts
          | succ i => exact Or.inl ⟨i, by simpa using hi, by omega⟩
        · exact Or.inr ⟨by simpa [hts] using h1, h2⟩

/-! ### The write in one piece -/

/-- The held records and the batch in one ascending run. -/
def runWith (r : InMemoryStore) (b : List LogEntry) : List LogEntry := mergeBy LogEntry.seq r.entries b

/-- The lowest of the run, past capacity: what leaves. -/
def overflow (r : InMemoryStore) (b : List LogEntry) : List LogEntry :=
  (r.runWith b).take ((r.runWith b).length - r.maxCapacity)

/-- The rest of the run: what the ring holds after the write. -/
def keptOf (r : InMemoryStore) (b : List LogEntry) : List LogEntry :=
  (r.runWith b).drop ((r.runWith b).length - r.maxCapacity)

/-- The late seqs of the batch that the overflow does not take. -/
def lateKept (r : InMemoryStore) (b : List LogEntry) : List ℕ :=
  (r.lateSeqs b).filter fun s => decide (s ∉ (r.overflow b).map LogEntry.seq)

/-- Merge, let the overflow leave, number the late records kept. -/
def storeAll (r : InMemoryStore) (b : List LogEntry) : InMemoryStore :=
  let r1 := { r with entries := r.keptOf b, traceIndex := mergeTraces r.traceIndex (byTrace b) }
  let r2 := (r1.leaveAll (r.overflow b)).numberAll (r.lateKept b)
  { r2 with totalStored := r2.totalStored + b.length }

theorem overflow_append_keptOf (r : InMemoryStore) (b : List LogEntry) :
    r.overflow b ++ r.keptOf b = r.runWith b :=
  List.take_append_drop _ _

theorem lateSeqs_sublist (r : InMemoryStore) (b : List LogEntry) :
    (r.lateSeqs b).Sublist (b.map LogEntry.seq) := by
  unfold lateSeqs
  split
  · exact List.nil_sublist _
  · exact List.takeWhile_sublist _

theorem lateKept_sublist (r : InMemoryStore) (b : List LogEntry) :
    (r.lateKept b).Sublist (b.map LogEntry.seq) :=
  List.filter_sublist.trans (r.lateSeqs_sublist b)

/-- In an ascending list, the seqs of the first `j` records are those up to
the last of them. -/
theorem any_le_getLast_take {l : List LogEntry} (hl : Asc LogEntry.seq l) (j : ℕ) {e : LogEntry} (he : e ∈ l) :
    ((l.take j).getLast?.map LogEntry.seq).any (fun d => decide (e.seq ≤ d)) = true ↔ e ∈ l.take j := by
  have htake : Asc LogEntry.seq (l.take j) := hl.sublist (List.take_sublist _ _)
  constructor
  · intro h
    cases hd : (l.take j).getLast? with
    | none => simp [hd] at h
    | some d =>
      have hle : e.seq ≤ d.seq := by simpa [hd] using h
      rw [← List.take_append_drop j l] at he
      rcases List.mem_append.mp he with he | he
      · exact he
      · have := hl.take_lt_drop j d (List.mem_of_getLast? hd) e he
        omega
  · intro h
    cases hd : (l.take j).getLast? with
    | none =>
      have : l.take j = [] := by simpa using hd
      rw [this] at h
      exact absurd h List.not_mem_nil
    | some d => simpa using le_newest htake hd e h

/-- `mergeBy` only needs to touch the held records at or above the batch. -/
theorem split_runWith {r : InMemoryStore} (h : Asc LogEntry.seq r.entries) {first : LogEntry}
    {rest : List LogEntry} (hb : Asc LogEntry.seq (first :: rest))
    (hd : ∀ x ∈ r.entries, ∀ y ∈ first :: rest, x.seq ≠ y.seq) :
    r.entries.take (partitionPoint (fun e => decide (e.seq < first.seq)) r.entries) ++
      mergeBy LogEntry.seq (r.entries.drop (partitionPoint (fun e => decide (e.seq < first.seq)) r.entries))
        (first :: rest) = r.runWith (first :: rest) := by
  rw [h.take_partitionPoint, h.drop_partitionPoint]
  have hfirst : ∀ y ∈ first :: rest, first.seq ≤ y.seq := by
    intro y hy
    rcases List.mem_cons.mp hy with rfl | hy
    · exact le_rfl
    · exact ((asc_cons.mp hb).1 y hy).le
  refine Asc.ext LogEntry.seq (asc_append.mpr ⟨h.filter _, asc_mergeBy (h.filter _) hb ?_, ?_⟩)
    (asc_mergeBy h hb hd) fun a => ?_
  · intro x hx y hy
    exact hd x (List.mem_filter.mp hx).1 y hy
  · intro x hx y hy
    have hx' : x.seq < first.seq := by simpa using (List.mem_filter.mp hx).2
    rcases mem_mergeBy.mp hy with hy | hy
    · have : ¬ y.seq < first.seq := by simpa using (List.mem_filter.mp hy).2
      omega
    · have := hfirst y hy
      omega
  · simp only [runWith, List.mem_append, mem_mergeBy, List.mem_filter]
    rcases lt_or_ge a.seq first.seq with ha | ha
    · simp [ha, not_le.mpr ha]
    · simp [ha, not_lt.mpr ha]

/-- **`merge_locked` in one piece.** Splitting at the batch's lowest seq,
evicting from the front and then from the merged run, and numbering past the
last one dropped, comes to one merge that lets its lowest leave. -/
theorem storeBatch_eq_storeAll {r : InMemoryStore} (h : Asc LogEntry.seq r.entries) {first : LogEntry}
    {rest : List LogEntry} (hb : Asc LogEntry.seq (first :: rest))
    (hd : ∀ x ∈ r.entries, ∀ y ∈ first :: rest, x.seq ≠ y.seq) :
    (r.storeBatch (first :: rest)).1 = r.storeAll (first :: rest) := by
  have hrun := split_runWith h hb hd
  set b := first :: rest with hbdef
  set split := partitionPoint (fun e => decide (e.seq < first.seq)) r.entries with hsplit
  set front := r.entries.take split with hfront
  set merged := mergeBy LogEntry.seq (r.entries.drop split) b with hmerged
  set k := (r.runWith b).length - r.maxCapacity with hk
  have hlen : front.length + merged.length - r.maxCapacity = k := by
    rw [hk, ← hrun, List.length_append]
  have hover : front.take k ++ merged.take (k - front.length) = r.overflow b := by
    unfold overflow
    rw [← hk, ← hrun, List.take_append]
  have hkept : front.drop k ++ merged.drop (k - front.length) = r.keptOf b := by
    unfold keptOf
    rw [← hk, ← hrun, List.drop_append]
  have hasc : Asc LogEntry.seq (front ++ merged) := by
    rw [hrun]
    exact asc_mergeBy h hb hd
  -- a late record is dropped when it is in the overflow
  have hnum : ∀ s ∈ r.lateSeqs b,
      (((merged.take (k - front.length)).getLast?.map LogEntry.seq).any (fun d => decide (s ≤ d)) = true ↔
        s ∈ (r.overflow b).map LogEntry.seq) := by
    intro s hs
    obtain ⟨e, he, rfl⟩ := List.mem_map.mp ((r.lateSeqs_sublist b).subset hs)
    have hem : e ∈ merged := mem_mergeBy.mpr (Or.inr he)
    rw [any_le_getLast_take (asc_append.mp hasc).2.1 _ hem, ← hover, List.mem_map]
    constructor
    · intro h
      exact ⟨e, List.mem_append.mpr (Or.inr h), rfl⟩
    · rintro ⟨x, hx, hxe⟩
      rcases List.mem_append.mp hx with hx | hx
      · have := (asc_append.mp hasc).2.2 x (List.mem_of_mem_take hx) e hem
        omega
      · rwa [← (asc_append.mp hasc).2.1.eq_of_key (List.mem_of_mem_take hx) hem hxe]
  have hlate : ∀ r4 : InMemoryStore, r4.numberLate ((merged.take (k - front.length)).getLast?.map LogEntry.seq)
      (r.lateSeqs b) = r4.numberAll (r.lateKept b) := by
    intro r4
    unfold numberLate numberAll lateKept
    rw [List.foldl_filter]
    refine List.foldl_ext _ _ _ fun r' s hs => ?_
    have := hnum s hs
    by_cases hin : s ∈ (r.overflow b).map LogEntry.seq
    · rw [if_pos (this.mpr hin), if_neg (by simpa using hin)]
    · rw [if_neg (fun h => hin (this.mp h)), if_pos (by simpa using hin)]
  set r1 : InMemoryStore :=
    { r with entries := front, traceIndex := mergeTraces r.traceIndex (byTrace b) } with hr1
  set r3 := ((r1.withEntries (front.drop k)).leaveAll (front.take k)).leaveAll (merged.take (k - front.length))
    with hr3
  have hr4 : r3.withEntries (r3.entries ++ merged.drop (k - front.length)) =
      (r1.withEntries (r.keptOf b)).leaveAll (r.overflow b) := by
    rw [hr3, ← leaveAll_append, hover, leaveAll_withEntries, leaveAll_withEntries, ← hkept]
    rfl
  have hstep : (r.storeBatch b).1 =
      (let r5 := (r3.withEntries (r3.entries ++ merged.drop (k - front.length))).numberLate
        ((merged.take (k - front.length)).getLast?.map LogEntry.seq) (r.lateSeqs b)
      { r5 with totalStored := r5.totalStored + b.length }) := by
    rw [hbdef]
    simp only [storeBatch, evictExcess_eq, dropMerged_eq, ← hbdef, ← hsplit, ← hfront, ← hmerged, hlen]
    rfl
  rw [hstep, hlate, hr4]
  rfl

/-! ### The state after the write -/

section storeAll

variable (r : InMemoryStore) (b : List LogEntry)

theorem storeAll_frame : (r.storeAll b).entries = r.keptOf b ∧ (r.storeAll b).maxCapacity = r.maxCapacity ∧
    (r.storeAll b).admitFrom = r.admitFrom ∧ (r.storeAll b).totalReceived = r.totalReceived ∧
    (r.storeAll b).totalStored = r.totalStored + b.length ∧
    (r.storeAll b).lostBelow = lostAfter r.lostBelow (r.overflow b) ∧
    (r.storeAll b).traceIndex = (leaveAll
      { r with entries := r.keptOf b, traceIndex := mergeTraces r.traceIndex (byTrace b) }
      (r.overflow b)).traceIndex := by
  obtain ⟨h1, h2, h3, h4, h5, h6, h7⟩ := numberAll_frame (r.lateKept b) (leaveAll
    { r with entries := r.keptOf b, traceIndex := mergeTraces r.traceIndex (byTrace b) } (r.overflow b))
  simp only [storeAll, h1, h2, h3, h4, h5, h6, h7, leaveAll_entries, leaveAll_maxCapacity,
    leaveAll_admitFrom, leaveAll_totalStored, leaveAll_totalReceived, leaveAll_lostBelow, and_self]

@[simp] theorem storeAll_entries : (r.storeAll b).entries = r.keptOf b := (storeAll_frame r b).1

@[simp] theorem storeAll_maxCapacity : (r.storeAll b).maxCapacity = r.maxCapacity := (storeAll_frame r b).2.1

@[simp] theorem storeAll_admitFrom : (r.storeAll b).admitFrom = r.admitFrom := (storeAll_frame r b).2.2.1

@[simp] theorem storeAll_lostBelow : (r.storeAll b).lostBelow = lostAfter r.lostBelow (r.overflow b) :=
  (storeAll_frame r b).2.2.2.2.2.1

@[simp] theorem storeAll_lateCounter :
    (r.storeAll b).lateCounter = r.lateCounter + (r.lateKept b).length := by
  simp [storeAll, numberAll_lateCounter]

end storeAll

/-- The invariant of the ring. -/
structure WF (r : InMemoryStore) : Prop where
  asc : Asc LogEntry.seq r.entries
  len : r.entries.length ≤ r.maxCapacity
  lost : ∀ e ∈ r.entries, r.lostBelow ≤ e.seq
  admits : ∀ e ∈ r.entries, r.admitFrom ≤ e.seq
  index : Indexes r.traceIndex r.entries
  late : r.LateMaps
  lateHeld : ∀ s n, r.lateBySeq.get? s = some n → ∃ e ∈ r.entries, e.seq = s

/-- A batch `merge_locked` may store: ascending, not held, at or above the
floors. -/
structure Fits (r : InMemoryStore) (b : List LogEntry) : Prop where
  asc : Asc LogEntry.seq b
  fresh : ∀ x ∈ r.entries, ∀ y ∈ b, x.seq ≠ y.seq
  floor : ∀ y ∈ b, r.refuseBelow ≤ y.seq

theorem wf_new (cap : ℕ) (h : cap ≤ u64Max) : (new cap h).WF where
  asc := Asc.nil
  len := Nat.zero_le _
  lost _ he := absurd he List.not_mem_nil
  admits _ he := absurd he List.not_mem_nil
  index := indexes_nil
  late := ⟨by simp [new], by simp [new]⟩
  lateHeld := by simp [new]

section fits

variable {r : InMemoryStore} {b : List LogEntry}

theorem mem_runWith {e : LogEntry} : e ∈ r.runWith b ↔ e ∈ r.entries ∨ e ∈ b := mem_mergeBy

theorem WF.asc_runWith (h : r.WF) (hb : r.Fits b) : Asc LogEntry.seq (r.runWith b) :=
  asc_mergeBy h.asc hb.asc hb.fresh

theorem WF.overflow_lt_keptOf (h : r.WF) (hb : r.Fits b) :
    ∀ x ∈ r.overflow b, ∀ y ∈ r.keptOf b, x.seq < y.seq :=
  (h.asc_runWith hb).take_lt_drop _

/-- A record of the run is kept or leaves. -/
theorem mem_overflow_or_keptOf {e : LogEntry} (he : e ∈ r.entries ∨ e ∈ b) :
    e ∈ r.overflow b ∨ e ∈ r.keptOf b := by
  rw [← List.mem_append, overflow_append_keptOf]
  exact mem_runWith.mpr he

theorem mem_of_mem_keptOf {e : LogEntry} (he : e ∈ r.keptOf b) : e ∈ r.entries ∨ e ∈ b :=
  mem_runWith.mp (List.mem_of_mem_drop he)

/-- The kept and the gone share no seq. -/
theorem WF.not_mem_overflow_seqs (h : r.WF) (hb : r.Fits b) {e : LogEntry} (he : e ∈ r.keptOf b) :
    e.seq ∉ (r.overflow b).map LogEntry.seq := by
  intro hin
  obtain ⟨x, hx, hxe⟩ := List.mem_map.mp hin
  have := h.overflow_lt_keptOf hb x hx e he
  omega

theorem length_keptOf_le : (r.keptOf b).length ≤ r.maxCapacity := by
  unfold keptOf
  rw [List.length_drop]
  omega

/-- A held or offered record is at or above the loss floor. -/
theorem WF.lost_le_runWith (h : r.WF) (hb : r.Fits b) {e : LogEntry} (he : e ∈ r.entries ∨ e ∈ b) :
    r.lostBelow ≤ e.seq := by
  rcases he with he | he
  · exact h.lost e he
  · exact le_trans (le_max_left _ _) (hb.floor e he)

theorem WF.admit_le_runWith (h : r.WF) (hb : r.Fits b) {e : LogEntry} (he : e ∈ r.entries ∨ e ∈ b) :
    r.admitFrom ≤ e.seq := by
  rcases he with he | he
  · exact h.admits e he
  · exact le_trans (le_max_right _ _) (hb.floor e he)

/-- A late seq the overflow spares is held after the write. -/
theorem held_of_mem_lateKept {s : ℕ} (hs : s ∈ r.lateKept b) : ∃ e ∈ r.keptOf b, e ∈ b ∧ e.seq = s := by
  obtain ⟨hlate, hover⟩ := List.mem_filter.mp hs
  obtain ⟨e, he, rfl⟩ := List.mem_map.mp ((r.lateSeqs_sublist b).subset hlate)
  rcases mem_overflow_or_keptOf (r := r) (b := b) (Or.inr he) with h | h
  · exact absurd (List.mem_map_of_mem h) (by simpa using hover)
  · exact ⟨e, h, he, rfl⟩

theorem Fits.nodup_lateKept (hb : r.Fits b) : (r.lateKept b).Nodup :=
  hb.asc.nodup_keys.sublist (r.lateKept_sublist b)

/-- A fresh seq has no late number. -/
theorem WF.lateBySeq_none (h : r.WF) (hb : r.Fits b) {e : LogEntry} (he : e ∈ b) :
    r.lateBySeq.get? e.seq = none := by
  cases hn : r.lateBySeq.get? e.seq with
  | none => rfl
  | some n =>
    obtain ⟨x, hx, hxe⟩ := h.lateHeld _ _ hn
    exact absurd hxe (hb.fresh x hx e he)

/-- The late numbers after the write: the new ones, and the old ones of
records that did not leave. -/
theorem storeAll_lateBySeq (hb : r.Fits b) (t n : ℕ) : (r.storeAll b).lateBySeq.get? t = some n ↔
    (∃ i, (r.lateKept b)[i]? = some t ∧ n = r.lateCounter + 1 + i) ∨
      (t ∉ r.lateKept b ∧ t ∉ (r.overflow b).map LogEntry.seq ∧ r.lateBySeq.get? t = some n) := by
  have heq : (r.storeAll b).lateBySeq.get? t = ((leaveAll
      { r with entries := r.keptOf b, traceIndex := mergeTraces r.traceIndex (byTrace b) }
      (r.overflow b)).numberAll (r.lateKept b)).lateBySeq.get? t := rfl
  rw [heq, numberAll_lateBySeq t n hb.nodup_lateKept, leaveAll_lateBySeq, leaveAll_lateCounter]
  by_cases hover : t ∈ (r.overflow b).map LogEntry.seq <;> simp [hover]

theorem WF.storeAll_lateMaps (h : r.WF) (hb : r.Fits b) : (r.storeAll b).LateMaps := by
  have hl : LateMaps { r with entries := r.keptOf b, traceIndex := mergeTraces r.traceIndex (byTrace b) } :=
    ⟨h.late.inverse, h.late.handed⟩
  have hn : ((leaveAll { r with entries := r.keptOf b, traceIndex := mergeTraces r.traceIndex (byTrace b) }
      (r.overflow b)).numberAll (r.lateKept b)).LateMaps := by
    refine (hl.leaveAll).numberAll hb.nodup_lateKept fun s hs => ?_
    obtain ⟨e, -, he, rfl⟩ := held_of_mem_lateKept hs
    rw [leaveAll_lateBySeq]
    split_ifs
    · rfl
    · exact h.lateBySeq_none hb he
  exact ⟨hn.inverse, hn.handed⟩

/-- **A write keeps the invariant.** -/
theorem WF.storeAll (h : r.WF) (hb : r.Fits b) : (r.storeAll b).WF where
  asc := by
    rw [storeAll_entries]
    exact (h.asc_runWith hb).sublist (List.drop_sublist _ _)
  len := by
    rw [storeAll_entries, storeAll_maxCapacity]
    exact length_keptOf_le
  lost e he := by
    rw [storeAll_entries] at he
    rw [storeAll_lostBelow]
    refine lostAfter_le (h.lost_le_runWith hb (mem_of_mem_keptOf he)) fun x hx => ?_
    exact satAdd_one_le (h.overflow_lt_keptOf hb x hx e he)
  admits e he := by
    rw [storeAll_entries] at he
    rw [storeAll_admitFrom]
    exact h.admit_le_runWith hb (mem_of_mem_keptOf he)
  index := by
    rw [storeAll_entries, (storeAll_frame r b).2.2.2.2.2.2]
    refine leaveAll_indexes ?_
    rw [overflow_append_keptOf]
    exact h.index.mergeTraces h.asc hb.asc hb.fresh
  late := h.storeAll_lateMaps hb
  lateHeld s n hs := by
    rw [storeAll_entries]
    rcases (storeAll_lateBySeq hb s n).mp hs with ⟨i, hi, -⟩ | ⟨-, hover, hold⟩
    · obtain ⟨e, he, -, hs⟩ := held_of_mem_lateKept (List.mem_of_getElem? hi)
      exact ⟨e, he, hs⟩
    · obtain ⟨e, he, rfl⟩ := h.lateHeld s n hold
      rcases mem_overflow_or_keptOf (r := r) (b := b) (Or.inl he) with ho | hk
      · exact absurd (List.mem_map_of_mem ho) hover
      · exact ⟨e, hk, rfl⟩

end fits

/-! ### The writers -/

/-- What a batch adds: its fresh records at or above the floors. -/
def admitted (r : InMemoryStore) (batch : List LogEntry) : List LogEntry :=
  (r.freshBatch batch).filter fun e => decide (r.refuseBelow ≤ e.seq)

/-- Every write: count the fresh records as received and store the admitted
ones. -/
def offer (r : InMemoryStore) (batch : List LogEntry) : InMemoryStore :=
  ({ r with totalReceived := r.totalReceived + (r.freshBatch batch).length } : InMemoryStore).storeAll
    (r.admitted batch)

section offer

variable (r : InMemoryStore) (batch : List LogEntry)

@[simp] theorem offer_entries : (r.offer batch).entries = r.keptOf (r.admitted batch) :=
  storeAll_entries _ _

@[simp] theorem offer_maxCapacity : (r.offer batch).maxCapacity = r.maxCapacity := storeAll_maxCapacity _ _

@[simp] theorem offer_admitFrom : (r.offer batch).admitFrom = r.admitFrom := storeAll_admitFrom _ _

@[simp] theorem offer_lostBelow :
    (r.offer batch).lostBelow = lostAfter r.lostBelow (r.overflow (r.admitted batch)) :=
  storeAll_lostBelow _ _

@[simp] theorem offer_lateCounter :
    (r.offer batch).lateCounter = r.lateCounter + (r.lateKept (r.admitted batch)).length :=
  storeAll_lateCounter _ _

end offer

section writers

variable {r : InMemoryStore}

theorem WF.fits_admitted (h : r.WF) (batch : List LogEntry) : r.Fits (r.admitted batch) where
  asc := ((asc_dedup_sort batch).filter _).filter _
  fresh x hx y hy hxy := by
    obtain ⟨hfresh, -⟩ := List.mem_filter.mp hy
    obtain ⟨-, hnot⟩ := List.mem_filter.mp hfresh
    have hheld : r.holds y.seq = true := (holds_iff h.asc y.seq).mpr ⟨x, hx, hxy⟩
    simp [hheld] at hnot
  floor y hy := by simpa using (List.mem_filter.mp hy).2

/-- A record is admitted when it is the first of the batch with its seq, not
held, and at or above both floors. -/
theorem WF.mem_admitted (h : r.WF) {batch : List LogEntry} {e : LogEntry} : e ∈ r.admitted batch ↔
    firstWith LogEntry.seq e.seq batch = some e ∧ (∀ x ∈ r.entries, x.seq ≠ e.seq) ∧
      r.lostBelow ≤ e.seq ∧ r.admitFrom ≤ e.seq := by
  unfold admitted freshBatch
  rw [List.mem_filter, List.mem_filter, mem_dedup_sort]
  have hh := holds_iff h.asc e.seq
  simp only [refuseBelow, Nat.max_le, decide_eq_true_eq, Bool.not_eq_true', and_assoc]
  refine and_congr_right fun _ => and_congr_left fun _ => ?_
  rw [← Bool.not_eq_true, hh]
  simp

theorem runWith_nil : r.runWith [] = r.entries := mergeBy_nil_right _

/-- An empty batch stores nothing. -/
theorem WF.storeAll_nil (h : r.WF) : r.storeAll [] = r := by
  have hover : r.overflow [] = [] := by
    unfold overflow
    rw [runWith_nil, Nat.sub_eq_zero_of_le h.len, List.take_zero]
  have hkept : r.keptOf [] = r.entries := by
    unfold keptOf
    rw [runWith_nil, Nat.sub_eq_zero_of_le h.len, List.drop_zero]
  have hlate : r.lateKept [] = [] := List.sublist_nil.mp (r.lateKept_sublist [])
  have hidx : mergeTraces r.traceIndex (byTrace []) = r.traceIndex := rfl
  unfold InMemoryStore.storeAll
  rw [hover, hkept, hlate, hidx]
  rfl

/-- The counters apart, the invariant does not see what was received. -/
theorem WF.received (h : r.WF) (n : ℕ) : ({ r with totalReceived := n } : InMemoryStore).WF :=
  ⟨h.asc, h.len, h.lost, h.admits, h.index, ⟨h.late.inverse, h.late.handed⟩, h.lateHeld⟩

theorem WF.mergeLocked_eq_offer (h : r.WF) (batch : List LogEntry) : (r.mergeLocked batch).1 = r.offer batch := by
  have hfits := h.fits_admitted batch
  have hwf := h.received (r.totalReceived + (r.freshBatch batch).length)
  unfold mergeLocked offer
  change (storeBatch _ (r.admitted batch)).1 = _
  cases hb : r.admitted batch with
  | nil => exact hwf.storeAll_nil.symm
  | cons first rest =>
    rw [hb] at hfits
    exact storeBatch_eq_storeAll hwf.asc hfits.asc hfits.fresh

theorem WF.insertSorted_eq_offer (h : r.WF) (batch : List LogEntry) : r.insertSorted batch = r.offer batch :=
  h.mergeLocked_eq_offer batch

theorem WF.offer (h : r.WF) (batch : List LogEntry) : (r.offer batch).WF := by
  obtain ⟨h1, h2, h3⟩ := h.fits_admitted batch
  exact (h.received _).storeAll ⟨h1, h2, h3⟩

theorem WF.offer_lateBySeq (h : r.WF) (batch : List LogEntry) (t n : ℕ) :
    (r.offer batch).lateBySeq.get? t = some n ↔
      (∃ i, (r.lateKept (r.admitted batch))[i]? = some t ∧ n = r.lateCounter + 1 + i) ∨
        (t ∉ r.lateKept (r.admitted batch) ∧ t ∉ (r.overflow (r.admitted batch)).map LogEntry.seq ∧
          r.lateBySeq.get? t = some n) := by
  obtain ⟨h1, h2, h3⟩ := h.fits_admitted batch
  exact storeAll_lateBySeq (r := { r with totalReceived := r.totalReceived + (r.freshBatch batch).length })
    ⟨h1, h2, h3⟩ t n

/-! ### The fast path of `append` -/

theorem runWith_newest (h : Asc LogEntry.seq r.entries) {e : LogEntry} (he : ∀ x ∈ r.entries, x.seq < e.seq) :
    r.runWith [e] = r.entries ++ [e] := by
  have hsingle : Asc LogEntry.seq [e] := List.pairwise_singleton _ _
  refine Asc.ext LogEntry.seq
    (asc_mergeBy h hsingle fun x hx y hy => ?_) (asc_append.mpr ⟨h, hsingle, fun x hx y hy => ?_⟩) fun a => ?_
  · rw [List.mem_singleton.mp hy]
    exact (he x hx).ne
  · rw [List.mem_singleton.mp hy]
    exact he x hx
  · rw [mem_runWith, List.mem_append]

theorem lateKept_newest {e : LogEntry} (he : ∀ x ∈ r.entries, x.seq < e.seq) : r.lateKept [e] = [] := by
  have : r.lateSeqs [e] = [] := by
    unfold lateSeqs
    split
    · rfl
    · rename_i newest hn
      have := he newest (List.mem_of_getLast? hn)
      simp only [List.map_cons, List.map_nil, List.takeWhile_cons]
      rw [if_neg (by simp; omega)]
  simp [lateKept, this]

theorem WF.freshBatch_newest (h : r.WF) {e : LogEntry} (he : ∀ x ∈ r.entries, x.seq < e.seq) :
    r.freshBatch [e] = [e] := by
  have hnot : ¬ r.holds e.seq = true := by
    rw [holds_iff h.asc]
    rintro ⟨x, hx, hxe⟩
    have := he x hx
    omega
  simp [freshBatch, sortByKey, dedupByKey, dedupFrom, hnot]

/-- Where a newest record is admitted, its push is the merge of the batch it
makes alone: the same records, floors, index and late maps. -/
theorem WF.push_eq_storeAll (h : r.WF) {e : LogEntry} (he : ∀ x ∈ r.entries, x.seq < e.seq)
    (hcap : r.maxCapacity ≠ 0) :
    (let r' := if r.maxCapacity ≤ r.entries.length then r.evictFront else r
    ({ r' with
      traceIndex := match e.traceId with
        | none => r'.traceIndex
        | some t => r'.traceIndex.insert t ((r'.traceIndex.get? t).getD [] ++ [e.seq])
      entries := r'.entries ++ [e]
      totalStored := r'.totalStored + 1 } : InMemoryStore)) = r.storeAll [e] := by
  have hrun := runWith_newest h.asc he
  have hmerged : Indexes (mergeTraces r.traceIndex (byTrace [e])) (r.entries ++ [e]) := by
    rw [← hrun]
    refine h.index.mergeTraces h.asc (List.pairwise_singleton _ _) fun x hx y hy => ?_
    rw [List.mem_singleton.mp hy]
    exact (he x hx).ne
  by_cases hfull : r.maxCapacity ≤ r.entries.length
  · -- a full ring: its lowest record leaves
    obtain ⟨x, rest, hx⟩ : ∃ x rest, r.entries = x :: rest := by
      cases hr : r.entries with
      | nil => rw [hr, List.length_nil] at hfull; omega
      | cons x rest => exact ⟨x, rest, rfl⟩
    have hk : (r.runWith [e]).length - r.maxCapacity = 1 := by
      have := h.len
      rw [hrun, List.length_append, List.length_singleton]
      omega
    have hover : r.overflow [e] = [x] := by
      unfold overflow
      rw [hk, hrun, hx]
      rfl
    have hkept : r.keptOf [e] = rest ++ [e] := by
      unfold keptOf
      rw [hk, hrun, hx]
      rfl
    have hidx : Indexes r.traceIndex (x :: rest) := hx ▸ h.index
    rw [hx] at hmerged
    have hindex := Indexes.unique (hidx.unindexTrace.push e) (hmerged.unindexTrace)
    have hl : r.evictFront = (r.withEntries rest).leave x := by simp [evictFront, hx, withEntries]
    rw [if_pos hfull, hl]
    unfold InMemoryStore.storeAll
    rw [hover, hkept, lateKept_newest he]
    simp only [leave_traceIndex, leave_entries, leave_totalStored, numberAll, leaveAll, List.foldl_cons,
      List.foldl_nil, withEntries]
    cases hs : r.lateBySeq.get? x.seq <;> simp [leave, unindex, forgetLate, loseThrough, hs] <;> exact hindex
  · -- room left: nothing leaves
    have hk : (r.runWith [e]).length - r.maxCapacity = 0 := by
      rw [hrun, List.length_append, List.length_singleton]
      omega
    have hover : r.overflow [e] = [] := by
      unfold overflow
      rw [hk, List.take_zero]
    have hkept : r.keptOf [e] = r.entries ++ [e] := by
      unfold keptOf
      rw [hk, hrun, List.drop_zero]
    have hindex := Indexes.unique (h.index.push e) hmerged
    rw [if_neg hfull]
    unfold InMemoryStore.storeAll
    rw [hover, hkept, lateKept_newest he]
    simp [numberAll, leaveAll]
    exact hindex

/-- A ring of no records stores and evicts at once, as the merge does. -/
theorem WF.zero_eq_storeAll (h : r.WF) {e : LogEntry} (hcap : r.maxCapacity = 0) :
    ({ r.loseThrough e.seq with totalStored := r.totalStored + 1 } : InMemoryStore) = r.storeAll [e] := by
  have hnil : r.entries = [] := by
    have := h.len
    rw [hcap] at this
    exact List.length_eq_zero_iff.mp (by omega)
  have hrun : r.runWith [e] = [e] := by
    unfold runWith
    rw [hnil, mergeBy_nil_left]
  have hover : r.overflow [e] = [e] := by
    unfold overflow
    rw [hrun, hcap]
    rfl
  have hkept : r.keptOf [e] = [] := by
    unfold keptOf
    rw [hrun, hcap]
    rfl
  have hmerged : Indexes (mergeTraces r.traceIndex (byTrace [e])) [e] := by
    have := h.index.mergeTraces h.asc (List.pairwise_singleton _ e) (by simp [hnil])
    rwa [hnil, mergeBy_nil_left] at this
  have hidx : Indexes r.traceIndex [] := hnil ▸ h.index
  have hindex := Indexes.unique hidx hmerged.unindexTrace
  have hlate : r.lateBySeq.get? e.seq = none := by
    cases hs : r.lateBySeq.get? e.seq with
    | none => rfl
    | some n =>
      obtain ⟨x, hx, -⟩ := h.lateHeld _ _ hs
      rw [hnil] at hx
      exact absurd hx List.not_mem_nil
  have hlk : r.lateKept [e] = [] := lateKept_newest (by simp [hnil])
  unfold InMemoryStore.storeAll
  rw [hover, hkept, hlk]
  simp [numberAll, leaveAll, leave, unindex, forgetLate, loseThrough, hlate, ← hindex, hnil]

/-- **The fast path of `append` is the merge.** Whole states agree, counters
included. -/
theorem WF.append_eq_offer (h : r.WF) (e : LogEntry) : r.append e = r.offer [e] := by
  have fast : (∀ x ∈ r.entries, x.seq < e.seq) → r.appendNewest e = r.offer [e] := by
    intro he
    have hwf := h.received (r.totalReceived + 1)
    have hfloor : ({ r with totalReceived := r.totalReceived + 1 } : InMemoryStore).refuseBelow
      = r.refuseBelow := rfl
    unfold appendNewest InMemoryStore.offer admitted
    rw [h.freshBatch_newest he]
    simp only [List.length_singleton, hfloor]
    by_cases hf : e.seq < r.refuseBelow
    · have hnot : ¬ r.refuseBelow ≤ e.seq := by omega
      simp only [hf, hnot, ↓reduceIte, List.filter_cons, decide_false, Bool.false_eq_true, List.filter_nil]
      exact hwf.storeAll_nil.symm
    · have hle : r.refuseBelow ≤ e.seq := by omega
      simp only [hf, hle, ↓reduceIte, List.filter_cons, decide_true, List.filter_nil]
      by_cases hcap : r.maxCapacity = 0
      · rw [if_pos hcap]
        exact hwf.zero_eq_storeAll hcap
      · rw [if_neg hcap]
        exact hwf.push_eq_storeAll he hcap
  unfold append
  split
  · rename_i hn
    have : r.entries = [] := by simpa using hn
    exact fast (by simp [this])
  · rename_i newest hn
    split_ifs with hlt
    · refine fast fun x hx => ?_
      have := le_newest h.asc hn x hx
      omega
    · exact h.mergeLocked_eq_offer [e]

/-! ### The clears -/

/-- A clear loses the held records, all at once. -/
theorem clearLocked_eq (h : Asc LogEntry.seq r.entries) : r.clearLocked = { r with
    entries := [], traceIndex := ∅, late := ∅, lateBySeq := ∅
    lostBelow := lostAfter r.lostBelow r.entries } := by
  rw [lostAfter_eq_newest h]
  cases hn : r.entries.getLast? <;> simp [clearLocked, loseThrough, hn]

theorem WF.clear (h : r.WF) : r.clear.WF := by
  unfold InMemoryStore.clear
  rw [clearLocked_eq h.asc]
  exact ⟨Asc.nil, Nat.zero_le _, by simp, by simp, indexes_nil, ⟨by simp, by simp⟩, by simp⟩

theorem WF.clearThrough (h : r.WF) (n : ℕ) : (r.clearThrough n).WF := by
  unfold InMemoryStore.clearThrough
  rw [clearLocked_eq h.asc]
  exact ⟨Asc.nil, Nat.zero_le _, by simp, by simp, indexes_nil, ⟨by simp, by simp⟩, by simp⟩

end writers

end InMemoryStore
end Logmon
