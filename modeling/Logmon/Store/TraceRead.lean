/-
# A cursor read of one trace

`cursor_read_trace` walks the trace index by seq and looks the late number of
each record up; `cursor_read` walks the late numbers and then the ring. Both
take the records a cursor is owed (`Owed`): above its floor, and either above
its position or late with a number above its mark. So the trace read is the
plain one without the other traces, and a commit of all of either moves the
mark to the same place.

That a plain read of `usize::MAX` records is not cut needs one more fact of
the ring: a late record is never the newest one held (`LateBelow`), so fewer
are late than the ring has room for.

Key definitions: `cursorReadTrace`, `Owed`, `LateBelow`.
Key theorems: `Reached.lateBelow`, `WF.mem_traceRead`, `WF.mem_plainRead`,
`trace_read_restricts`.
-/
import Logmon.Store.Cursor
import Logmon.Store.Readers

namespace Logmon

open Lib

namespace InMemoryStore

/-- A seq of the trace, as the trace read takes it. -/
def traceCandidate (E : TextEnv) (r : InMemoryStore) (filter : Option ParsedFilter) (pos : CursorPos) (seq : ℕ) :
    Option (LogEntry × Option LateTag) :=
  match r.record? seq with
  | none => none
  | some e =>
    if seq ≤ pos.floor then none
    else if seq ≤ pos.seq then
      match r.lateBySeq.get? seq with
      | none => none
      | some number =>
        if number ≤ pos.lateMark ∨ !matchesPast? E filter e then none else some (e, some ⟨number, 0⟩)
    else if matchesOpt? E filter e then some (e, none)
    else none

/-- `cursor_read_trace`: no count, and no count of the late records lost. -/
def cursorReadTrace (E : TextEnv) (r : InMemoryStore) (traceId : ℕ) (filter : Option ParsedFilter) (pos : CursorPos) :
    CursorRead where
  entries := ((r.traceIndex.get? traceId).getD []).filterMap (traceCandidate E r filter pos)
  pos := pos
  lateExhausted := true
  lateCounter := r.lateCounter
  heldTotal := none
  view := r.view 0

/-! ### A late record is never the newest -/

/-- Above each held late record another record is held. -/
def LateBelow (r : InMemoryStore) : Prop :=
  ∀ e ∈ r.entries, ∀ n, r.lateBySeq.get? e.seq = some n → ∃ x ∈ r.entries, e.seq < x.seq

/-- The lowest leave first, so what is above a record that stays, stays. -/
theorem Evolves.still_above {r r' : InMemoryStore} (hev : r.Evolves r') (hwf : r'.WF) {e x : LogEntry}
    (he : e ∈ r'.entries) (hx : x ∈ r.entries) (hlt : e.seq < x.seq) : ∃ x ∈ r'.entries, e.seq < x.seq := by
  rcases hev.kept_or_lost x hx with hkept | hlost
  · exact ⟨x, hkept, hlt⟩
  · have hheld := hwf.lost e he
    have htop : x.seq ≤ satAdd x.seq 1 := le_satAdd x.seq_le
    omega

theorem LateBelow.evolve {r r' : InMemoryStore} (h : r.LateBelow) (hev : r.Evolves r') (hwf : r'.WF) :
    r'.LateBelow := by
  intro e he n hn
  by_cases hold : e ∈ r.entries
  · rw [hev.number_kept e hold he] at hn
    obtain ⟨x, hx, hlt⟩ := h e hold n hn
    exact hev.still_above hwf he hx hlt
  · obtain ⟨x, hx, hlt⟩ := (hev.late_iff e he hold).mpr ⟨n, hn⟩
    exact hev.still_above hwf he hx hlt

theorem Reached.lateBelow {r : InMemoryStore} (h : r.Reached) : r.LateBelow := by
  induction h with
  | new capacity h => intro e he; exact absurd he List.not_mem_nil
  | loaded capacity records lostBelow h hasc hlost =>
    intro e _ n hn
    simp [fromRecords] at hn
  | write op hr ih => exact ih.evolve (hr.wf.evolves op) (hr.wf.apply op)

/-! ### What both reads take -/

section owed

variable {E : TextEnv} {r : InMemoryStore} {filter : Option ParsedFilter} {pos : CursorPos}

/-- The record is the cursor's to read: above the floor, and either new to it
or stored late since its mark. -/
def Owed (E : TextEnv) (r : InMemoryStore) (filter : Option ParsedFilter) (pos : CursorPos) (e : LogEntry) : Prop :=
  pos.floor < e.seq ∧
    ((pos.seq < e.seq ∧ matchesOpt? E filter e = true) ∨
      (e.seq ≤ pos.seq ∧ matchesPast? E filter e = true ∧
        ∃ n, r.lateBySeq.get? e.seq = some n ∧ pos.lateMark < n))

theorem WF.traceCandidate_eq_some (h : r.WF) {e : LogEntry} (he : e ∈ r.entries) {p : LogEntry × Option LateTag}
    (hp : traceCandidate E r filter pos e.seq = some p) : p.1 = e ∧ Owed E r filter pos e := by
  unfold traceCandidate at hp
  rw [(record?_eq_some h.asc).mpr ⟨he, rfl⟩] at hp
  simp only at hp
  split_ifs at hp with hfloor hpast hm
  · cases hn : r.lateBySeq.get? e.seq with
    | none => simp [hn] at hp
    | some n =>
      simp only [hn] at hp
      split_ifs at hp with hout
      obtain ⟨hmark, hmatch⟩ := not_or.mp hout
      obtain rfl := Option.some.inj hp
      exact ⟨rfl, by omega, .inr ⟨hpast, by simpa using hmatch, n, hn, by omega⟩⟩
  · obtain rfl := Option.some.inj hp
    exact ⟨rfl, by omega, .inl ⟨by omega, hm⟩⟩

theorem WF.exists_traceCandidate (h : r.WF) {e : LogEntry} (he : e ∈ r.entries) (howed : Owed E r filter pos e) :
    ∃ t, traceCandidate E r filter pos e.seq = some (e, t) := by
  unfold traceCandidate
  rw [(record?_eq_some h.asc).mpr ⟨he, rfl⟩]
  obtain ⟨hfloor, ⟨hnew, hm⟩ | ⟨hpast, hm, n, hn, hmark⟩⟩ := howed
  · have h1 : ¬ e.seq ≤ pos.floor := by omega
    have h2 : ¬ e.seq ≤ pos.seq := by omega
    exact ⟨none, by simp only [h1, h2, hm, ↓reduceIte]⟩
  · have h1 : ¬ e.seq ≤ pos.floor := by omega
    have h2 : ¬ n ≤ pos.lateMark := by omega
    exact ⟨some ⟨n, 0⟩, by simp [h1, hpast, hn, h2, hm]⟩

theorem WF.traceRead_entries (h : r.WF) (t : ℕ) : (cursorReadTrace E r t filter pos).entries =
    (traceSeqs r.entries t).filterMap (traceCandidate E r filter pos) := by
  unfold cursorReadTrace
  rw [h.index.getD]

/-- **The trace read takes the trace's records that are owed.** -/
theorem WF.mem_traceRead (h : r.WF) {t : ℕ} {e : LogEntry} :
    e ∈ (cursorReadTrace E r t filter pos).entries.map Prod.fst ↔
      (e ∈ r.entries ∧ Owed E r filter pos e) ∧ e.traceId = some t := by
  rw [h.traceRead_entries, List.mem_map]
  constructor
  · rintro ⟨p, hp, rfl⟩
    obtain ⟨s, hs, hcand⟩ := List.mem_filterMap.mp hp
    obtain ⟨x, hx, htrace, rfl⟩ := mem_traceSeqs.mp hs
    obtain ⟨hpx, howed⟩ := h.traceCandidate_eq_some hx hcand
    rw [hpx]
    exact ⟨⟨hx, howed⟩, htrace⟩
  · rintro ⟨⟨he, howed⟩, htrace⟩
    obtain ⟨tag, htag⟩ := h.exists_traceCandidate he howed
    exact ⟨(e, tag), List.mem_filterMap.mpr ⟨e.seq, mem_traceSeqs.mpr ⟨e, he, htrace, rfl⟩, htag⟩, rfl⟩

/-- The trace read comes in seq order. -/
theorem WF.asc_traceRead (h : r.WF) (t : ℕ) :
    Asc LogEntry.seq ((cursorReadTrace E r t filter pos).entries.map Prod.fst) := by
  have hseq : ∀ s p, traceCandidate E r filter pos s = some p → p.1.seq = s := by
    intro s p hp
    cases hrec : r.record? s with
    | none => simp [traceCandidate, hrec] at hp
    | some e =>
      obtain ⟨he, rfl⟩ := (record?_eq_some h.asc).mp hrec
      rw [(h.traceCandidate_eq_some he hp).1]
  rw [h.traceRead_entries]
  unfold Asc
  rw [List.pairwise_map]
  refine List.Pairwise.filterMap _ (fun a b hab p hp q hq => ?_) (asc_traceSeqs h.asc t)
  rw [hseq a p hp, hseq b q hq]
  exact hab

/-- **The plain read, uncut, takes the records that are owed.** -/
theorem WF.mem_plainRead (h : r.WF) (hfloor : pos.floor ≤ pos.seq) {e : LogEntry} :
    e ∈ (lateCandidates E r filter pos ++ normalCandidates E r filter pos).map Prod.fst ↔
      e ∈ r.entries ∧ Owed E r filter pos e := by
  rw [List.map_append, List.mem_append, List.mem_map, List.mem_map]
  constructor
  · rintro (⟨p, hp, rfl⟩ | ⟨p, hp, rfl⟩)
    · obtain ⟨n, s, i, e, hmem, h1, h2, hrec, hm, rfl⟩ := mem_lateCandidates.mp hp
      obtain ⟨hget, hmark⟩ := OrdMap.mem_above.mp (List.fst_mem_of_mem_zipIdx hmem)
      obtain ⟨he, rfl⟩ := (record?_eq_some h.asc).mp hrec
      exact ⟨he, h1, .inr ⟨h2, hm, n, (h.late.inverse n e.seq).mp hget, hmark⟩⟩
    · obtain ⟨he, hnew, hm, -⟩ := mem_normalCandidates.mp hp
      exact ⟨he, by omega, .inl ⟨hnew, hm⟩⟩
  · rintro ⟨he, habove, ⟨hnew, hm⟩ | ⟨hpast, hm, n, hn, hmark⟩⟩
    · exact .inr ⟨(e, none), mem_normalCandidates.mpr ⟨he, hnew, hm, rfl⟩, rfl⟩
    · obtain ⟨i, hi⟩ := h.exists_mem_lateCandidates he hn hmark habove hpast hm
      exact .inl ⟨_, hi, rfl⟩

theorem WF.nodup_plainRead (h : r.WF) :
    ((lateCandidates E r filter pos ++ normalCandidates E r filter pos).map fun p => p.1.seq).Nodup := by
  rw [List.map_append, List.nodup_append]
  refine ⟨h.nodup_lateCandidates, h.asc_normalCandidates.nodup_keys, ?_⟩
  intro s hs t ht
  obtain ⟨p, hp, rfl⟩ := List.mem_map.mp hs
  obtain ⟨q, hq, rfl⟩ := List.mem_map.mp ht
  obtain ⟨-, -, -, -, -, -, -, hle⟩ := h.of_mem_lateCandidates hp
  obtain ⟨-, hlt, -⟩ := mem_normalCandidates.mp hq
  omega

/-! ### The plain read is not cut -/

/-- Distinct seqs of records among `es` are at most as many as `es`. -/
theorem length_le_of_seqs {l : List (LogEntry × Option LateTag)} {es : List LogEntry}
    (hnodup : (l.map fun p => p.1.seq).Nodup) (hmem : ∀ p ∈ l, p.1 ∈ es) : l.length ≤ es.length := by
  have hsub : (l.map fun p => p.1.seq) ⊆ es.map LogEntry.seq := by
    intro s hs
    obtain ⟨p, hp, rfl⟩ := List.mem_map.mp hs
    exact List.mem_map_of_mem (hmem p hp)
  calc l.length = (l.map fun p => p.1.seq).length := (List.length_map _).symm
    _ ≤ (es.map LogEntry.seq).length := (List.subperm_of_subset hnodup hsub).length_le
    _ = es.length := List.length_map _

/-- Fewer records are late than a `usize` counts. -/
theorem WF.length_lateCandidates_lt (h : r.WF) (hbelow : r.LateBelow) :
    (lateCandidates E r filter pos).length < u64Max := by
  have hcap : r.entries.length ≤ u64Max := h.len.trans r.capacity_le
  rcases List.eq_nil_or_concat r.entries with hnil | ⟨es, newest, hes⟩
  · have hle : (lateCandidates E r filter pos).length ≤ ([] : List LogEntry).length :=
      length_le_of_seqs h.nodup_lateCandidates fun p hp => by
        obtain ⟨-, -, -, hheld, -⟩ := h.of_mem_lateCandidates hp
        rwa [hnil] at hheld
    have hpos : 0 < u64Max := by decide
    simp only [List.length_nil] at hle
    omega
  · rw [List.concat_eq_append] at hes
    have hle : (lateCandidates E r filter pos).length ≤ es.length :=
      length_le_of_seqs h.nodup_lateCandidates fun p hp => by
        obtain ⟨n, -, -, hheld, hn, -⟩ := h.of_mem_lateCandidates hp
        obtain ⟨x, hx, hlt⟩ := hbelow p.1 hheld n hn
        have hnewest := @le_newest _ h.asc newest (by simp [hes]) x hx
        rw [hes] at hheld
        refine (List.mem_append.mp hheld).resolve_right fun hlast => ?_
        rw [List.mem_singleton.mp hlast] at hlt
        omega
    rw [hes, List.length_append, List.length_singleton] at hcap
    omega

theorem WF.cursorRead_uncut (h : r.WF) (hfloor : pos.floor ≤ pos.seq) :
    (cursorRead E r u64Max filter pos).entries =
      lateCandidates E r filter pos ++ normalCandidates E r filter pos := by
  rw [cursorRead_entries h.late]
  refine List.take_of_length_le (le_trans (length_le_of_seqs h.nodup_plainRead fun p hp => ?_)
    (h.len.trans r.capacity_le))
  exact ((h.mem_plainRead hfloor).mp (List.mem_map_of_mem hp)).1

end owed

/-! ### The commit -/

theorem keptEntries_all (read : CursorRead) : read.keptEntries read.entries.length = read.entries.map Prod.fst := by
  unfold CursorRead.keptEntries
  rw [List.take_length]

/-- A commit of a whole trace read moves the mark to the counter. -/
theorem lateMark_traceRead (E : TextEnv) (r : InMemoryStore) (t : ℕ) (filter : Option ParsedFilter) (pos : CursorPos) :
    ((cursorReadTrace E r t filter pos).advanceFor (cursorReadTrace E r t filter pos).entries.length).lateMark =
      max r.lateCounter pos.lateMark := by
  have htags : ∀ l : List (LogEntry × Option LateTag),
      (l.filterMap Prod.snd).length = (l.filter fun p => p.2.isSome).length := by
    intro l
    rw [List.length_filterMap_eq_countP, List.countP_eq_length_filter]
  unfold CursorRead.advanceFor
  simp only [min_self, List.take_length, htags, decide_true, Bool.and_true]
  rfl

/-- **The trace read is the plain read of the trace.** In every ring the
writers reach, the trace read of a cursor takes the records of the trace that
a plain read of `usize::MAX` takes, each once, and replies with them in the
same order; a commit of all of either read moves the late mark to the same
number. -/
theorem trace_read_restricts (E : TextEnv) {r : InMemoryStore} (hr : r.Reached) (t : ℕ) (filter : Option ParsedFilter)
    (pos : CursorPos) (hfloor : pos.floor ≤ pos.seq) :
    let plain := cursorRead E r u64Max filter pos
    let trace := cursorReadTrace E r t filter pos
    (trace.entries.map Prod.fst).Perm ((plain.entries.map Prod.fst).filter fun e => e.traceId = some t) ∧
      trace.intoKeptEntries trace.entries.length =
        (plain.intoKeptEntries plain.entries.length).filter (fun e => e.traceId = some t) ∧
      (trace.advanceFor trace.entries.length).lateMark = (plain.advanceFor plain.entries.length).lateMark := by
  intro plain trace
  have hwf := hr.wf
  have hplain : plain.entries = lateCandidates E r filter pos ++ normalCandidates E r filter pos :=
    hwf.cursorRead_uncut hfloor
  have hmem : ∀ e, e ∈ trace.entries.map Prod.fst ↔
      e ∈ (plain.entries.map Prod.fst).filter fun e => e.traceId = some t := by
    intro e
    rw [List.mem_filter, hplain, hwf.mem_plainRead hfloor, hwf.mem_traceRead, decide_eq_true_eq]
  have hseqs : ((plain.entries.map Prod.fst).map LogEntry.seq).Nodup := by
    rw [hplain, List.map_map]
    exact hwf.nodup_plainRead
  have hasc : Asc LogEntry.seq (trace.entries.map Prod.fst) := hwf.asc_traceRead t
  refine ⟨(List.perm_ext_iff_of_nodup hasc.nodup (hseqs.of_map.filter _)).mpr hmem, ?_, ?_⟩
  · unfold CursorRead.intoKeptEntries
    rw [keptEntries_all, keptEntries_all]
    refine Asc.ext LogEntry.seq (asc_sortByKey_of_nodup hasc.nodup_keys)
      ((asc_sortByKey_of_nodup hseqs).filter _) fun e => ?_
    rw [mem_sortByKey, hmem, List.mem_filter, List.mem_filter, mem_sortByKey]
  · have hall : PassesLate E r u64Max filter pos plain.entries.length := by
      refine ⟨hwf.length_lateCandidates_lt hr.lateBelow, ?_⟩
      rw [hplain, List.length_append]
      omega
    rw [advanceFor_all hwf.late hall]
    exact lateMark_traceRead E r t filter pos

/-- A trace of two, one record late and one new, beside another trace. -/
theorem trace_read_restricts_sample :
    let on (seq t : ℕ) : LogEntry := { LogEntry.blank seq with traceId := some t }
    let r := ((new 4 (by decide)).apply (.append (on 5 1))).apply (.insertSorted [on 3 1, on 4 2, on 7 1])
    let pos : CursorPos := ⟨5, 0, 2⟩
    r.Reached ∧ pos.floor ≤ pos.seq ∧
      ((cursorReadTrace .ascii r 1 none pos).intoKeptEntries (cursorReadTrace .ascii r 1 none pos).entries.length =
        ((cursorRead .ascii r u64Max none pos).intoKeptEntries
          (cursorRead .ascii r u64Max none pos).entries.length).filter fun e => e.traceId = some 1) := by
  intro on r pos
  have hr : r.Reached := .write _ (.write _ (.new 4 _))
  exact ⟨hr, by decide, (trace_read_restricts .ascii hr 1 none pos (by decide)).2.1⟩

end InMemoryStore
end Logmon
