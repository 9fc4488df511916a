/-
# A cursor over a changing ring

What a writer can do to the ring, as a cursor sees it (`Evolves`): a held
record stays, under the late number it has, or is lost; a new record below one
held gets a number past the counter. From this alone, and from what a read
takes, a cursor's bookkeeping stays right: what was delivered is distinct and
above the floor (`Once`), and what the position has passed was delivered or
still has a number above the mark (`Covers`).

Key definitions: `Evolves`, `Selects`, `Covers`, `Once`.
Key theorems: `WF.evolves`, `Covers.evolve`, `Covers.advance`,
`Once.advance`, `Covers.short_read`.
-/
import Logmon.Store.Reference
import Logmon.Store.Read

namespace Logmon

open Lib

namespace InMemoryStore

/-! ### What a writer does -/

/-- One write, as a cursor sees it. -/
structure Evolves (r r' : InMemoryStore) : Prop where
  kept_or_lost : ∀ e ∈ r.entries, e ∈ r'.entries ∨ satAdd e.seq 1 ≤ r'.lostBelow
  lost_mono : r.lostBelow ≤ r'.lostBelow
  counter_mono : r.lateCounter ≤ r'.lateCounter
  fresh : ∀ e ∈ r'.entries, e ∉ r.entries → r.lostBelow ≤ e.seq ∧ ∀ x ∈ r.entries, x.seq ≠ e.seq
  late_iff : ∀ e ∈ r'.entries, e ∉ r.entries →
    ((∃ x ∈ r.entries, e.seq < x.seq) ↔ ∃ n, r'.lateBySeq.get? e.seq = some n)
  late_new : ∀ e ∈ r'.entries, e ∉ r.entries → ∀ n, r'.lateBySeq.get? e.seq = some n → r.lateCounter < n
  number_kept : ∀ e ∈ r.entries, e ∈ r'.entries → r'.lateBySeq.get? e.seq = r.lateBySeq.get? e.seq

/-- The late seqs of an ascending batch: those below some held one. -/
theorem WF.mem_lateSeqs {r : InMemoryStore} (h : r.WF) {b : List LogEntry} (hb : Asc LogEntry.seq b) {e : LogEntry}
    (he : e ∈ b) : e.seq ∈ r.lateSeqs b ↔ ∃ x ∈ r.entries, e.seq < x.seq := by
  unfold lateSeqs
  cases hn : r.entries.getLast? with
  | none =>
    have : r.entries = [] := by simpa using hn
    simp [this]
  | some newest =>
    have hle := le_newest h.asc hn
    have hmem := List.mem_of_getLast? hn
    simp only
    have htake := hb.map_keys.take_partitionPoint newest.seq
    simp only [id] at htake
    rw [← take_partitionPoint_eq, htake, List.mem_filter]
    simp only [decide_eq_true_eq]
    constructor
    · rintro ⟨-, hlt⟩
      exact ⟨newest, hmem, hlt⟩
    · rintro ⟨x, hx, hlt⟩
      have := hle x hx
      exact ⟨List.mem_map_of_mem he, by omega⟩

section offer

variable {r : InMemoryStore} {batch : List LogEntry}

/-- A record the offer leaves held that was not: one it admitted. -/
theorem mem_admitted_of_new {e : LogEntry} (he : e ∈ (r.offer batch).entries) (hnew : e ∉ r.entries) :
    e ∈ r.admitted batch := by
  rw [offer_entries] at he
  exact (mem_of_mem_keptOf he).resolve_left hnew

/-- A new record is numbered when it lies below a held one. -/
theorem WF.mem_lateKept (h : r.WF) {e : LogEntry} (he : e ∈ (r.offer batch).entries) (hnew : e ∉ r.entries) :
    e.seq ∈ r.lateKept (r.admitted batch) ↔ ∃ x ∈ r.entries, e.seq < x.seq := by
  have hfits := h.fits_admitted batch
  have hadm := mem_admitted_of_new he hnew
  rw [offer_entries] at he
  have hnot := h.not_mem_overflow_seqs hfits he
  rw [← h.mem_lateSeqs hfits.asc hadm, lateKept, List.mem_filter]
  simp only [hnot, not_false_eq_true, decide_true, and_true]

theorem WF.evolves_offer (h : r.WF) (batch : List LogEntry) : r.Evolves (r.offer batch) where
  kept_or_lost e he := by
    rw [offer_entries, offer_lostBelow]
    rcases mem_overflow_or_keptOf (b := r.admitted batch) (Or.inl he) with ho | hk
    · exact Or.inr ((le_lostAfter _ _).2 e ho)
    · exact Or.inl hk
  lost_mono := by
    rw [offer_lostBelow]
    exact (le_lostAfter _ _).1
  counter_mono := by
    rw [offer_lateCounter]
    omega
  fresh e he hnew := by
    have hadm := mem_admitted_of_new he hnew
    have hfits := h.fits_admitted batch
    exact ⟨le_trans (le_max_left _ _) (hfits.floor e hadm), fun x hx => hfits.fresh x hx e hadm⟩
  late_iff e he hnew := by
    rw [← h.mem_lateKept he hnew]
    have hnone := h.lateBySeq_none (h.fits_admitted batch) (mem_admitted_of_new he hnew)
    constructor
    · intro hin
      obtain ⟨i, hi⟩ := List.mem_iff_getElem?.mp hin
      exact ⟨_, (h.offer_lateBySeq batch _ _).mpr (Or.inl ⟨i, hi, rfl⟩)⟩
    · rintro ⟨n, hn⟩
      rcases (h.offer_lateBySeq batch _ _).mp hn with ⟨i, hi, -⟩ | ⟨-, -, hold⟩
      · exact List.mem_of_getElem? hi
      · rw [hnone] at hold
        exact absurd hold (by simp)
  late_new e he hnew n hn := by
    have hnone := h.lateBySeq_none (h.fits_admitted batch) (mem_admitted_of_new he hnew)
    rcases (h.offer_lateBySeq batch _ _).mp hn with ⟨i, -, rfl⟩ | ⟨-, -, hold⟩
    · omega
    · rw [hnone] at hold
      exact absurd hold (by simp)
  number_kept e he he' := by
    have hfits := h.fits_admitted batch
    rw [offer_entries] at he'
    have hover := h.not_mem_overflow_seqs hfits he'
    have hlate : e.seq ∉ r.lateKept (r.admitted batch) := by
      intro hin
      obtain ⟨x, -, hx, hxe⟩ := held_of_mem_lateKept hin
      exact hfits.fresh e he x hx hxe.symm
    refine Option.ext fun n => ?_
    rw [h.offer_lateBySeq batch]
    constructor
    · rintro (⟨i, hi, -⟩ | ⟨-, -, hold⟩)
      · exact absurd (List.mem_of_getElem? hi) hlate
      · exact hold
    · intro hold
      exact Or.inr ⟨hlate, hover, hold⟩

end offer

/-- A clear loses everything held. -/
theorem WF.evolves_clearLocked {r : InMemoryStore} (h : r.WF) (admits : ℕ) :
    r.Evolves { r.clearLocked with admitFrom := admits } := by
  rw [clearLocked_eq h.asc]
  obtain ⟨h1, h2⟩ := le_lostAfter r.entries r.lostBelow
  exact ⟨fun e he => Or.inr (h2 e he), h1, le_rfl, by simp, by simp, by simp, by simp⟩

/-- **Every write, as a cursor sees it.** -/
theorem WF.evolves {r : InMemoryStore} (h : r.WF) (op : RingOp) : r.Evolves (r.apply op) := by
  cases op with
  | append e =>
    change r.Evolves (r.append e)
    rw [h.append_eq_offer]
    exact h.evolves_offer [e]
  | insertSorted batch =>
    change r.Evolves (r.insertSorted batch)
    rw [h.insertSorted_eq_offer]
    exact h.evolves_offer batch
  | clear => exact h.evolves_clearLocked r.clearLocked.admitFrom
  | clearThrough n => exact h.evolves_clearLocked _

/-! ### What a read takes -/

section candidates

variable {E : TextEnv} {r : InMemoryStore} {filter : Option ParsedFilter} {pos : CursorPos}

theorem mem_lateCandidates {p : LogEntry × Option LateTag} : p ∈ lateCandidates E r filter pos ↔
    ∃ n s i e, ((n, s), i) ∈ (r.late.above pos.lateMark).zipIdx 1 ∧ pos.floor < s ∧ s ≤ pos.seq ∧
      r.record? s = some e ∧ matchesPast? E filter e = true ∧ p = (e, some ⟨n, i⟩) := by
  unfold lateCandidates
  rw [List.mem_filterMap]
  constructor
  · rintro ⟨⟨⟨n, s⟩, i⟩, hmem, hq⟩
    obtain ⟨h1, h2, e, hrec, hm, rfl⟩ := lateCandidate_eq_some.mp hq
    exact ⟨n, s, i, e, hmem, h1, h2, hrec, hm, rfl⟩
  · rintro ⟨n, s, i, e, hmem, h1, h2, hrec, hm, rfl⟩
    exact ⟨((n, s), i), hmem, lateCandidate_eq_some.mpr ⟨h1, h2, e, hrec, hm, rfl⟩⟩

/-- A late candidate is a held record with a number above the mark. -/
theorem WF.of_mem_lateCandidates (h : r.WF) {p : LogEntry × Option LateTag}
    (hp : p ∈ lateCandidates E r filter pos) : ∃ n i, p.2 = some ⟨n, i⟩ ∧ p.1 ∈ r.entries ∧
      r.lateBySeq.get? p.1.seq = some n ∧ pos.lateMark < n ∧ pos.floor < p.1.seq ∧ p.1.seq ≤ pos.seq := by
  obtain ⟨n, s, i, e, hmem, h1, h2, hrec, -, rfl⟩ := mem_lateCandidates.mp hp
  obtain ⟨hget, hlt⟩ := OrdMap.mem_above.mp (List.fst_mem_of_mem_zipIdx hmem)
  obtain ⟨he, rfl⟩ := (record?_eq_some h.asc).mp hrec
  exact ⟨n, i, rfl, he, (h.late.inverse n _).mp hget, hlt, h1, h2⟩

/-- A held record with a number above the mark, in the cursor's range and
past the filter, is a late candidate. -/
theorem WF.exists_mem_lateCandidates (h : r.WF) {e : LogEntry} {n : ℕ} (he : e ∈ r.entries)
    (hn : r.lateBySeq.get? e.seq = some n) (hmark : pos.lateMark < n) (h1 : pos.floor < e.seq)
    (h2 : e.seq ≤ pos.seq) (hm : matchesPast? E filter e = true) :
    ∃ i, (e, some ⟨n, i⟩) ∈ lateCandidates E r filter pos := by
  have habove : (n, e.seq) ∈ r.late.above pos.lateMark :=
    OrdMap.mem_above.mpr ⟨(h.late.inverse n e.seq).mpr hn, hmark⟩
  obtain ⟨j, hj⟩ := List.mem_iff_getElem?.mp habove
  refine ⟨1 + j, mem_lateCandidates.mpr ⟨n, e.seq, 1 + j, e, ?_, h1, h2, (record?_eq_some h.asc).mpr ⟨he, rfl⟩,
    hm, rfl⟩⟩
  rw [List.mem_iff_getElem?]
  exact ⟨j, by simp [List.getElem?_zipIdx, hj]⟩

theorem mem_normalCandidates {p : LogEntry × Option LateTag} : p ∈ normalCandidates E r filter pos ↔
    p.1 ∈ r.entries ∧ pos.seq < p.1.seq ∧ matchesOpt? E filter p.1 = true ∧ p.2 = none := by
  obtain ⟨e, t⟩ := p
  simp only [normalCandidates, List.mem_map, List.mem_filter, Bool.and_eq_true, decide_eq_true_eq, Prod.mk.injEq]
  constructor
  · rintro ⟨x, ⟨hx, h1, h2⟩, rfl, rfl⟩
    exact ⟨hx, h1, h2, rfl⟩
  · rintro ⟨hx, h1, h2, rfl⟩
    exact ⟨e, ⟨hx, h1, h2⟩, rfl, rfl⟩

/-- The late part comes in late-number order. -/
theorem pairwise_lateCandidates : (lateCandidates E r filter pos).Pairwise fun p q =>
    ∀ t u, p.2 = some t → q.2 = some u → t.number < u.number := by
  have hkeys : ((r.late.above pos.lateMark).zipIdx 1).Pairwise fun a b => a.1.1 < b.1.1 := by
    rw [← List.pairwise_map (f := Prod.fst) (R := fun a b : ℕ × ℕ => a.1 < b.1), List.zipIdx_map_fst]
    exact r.late.asc_above pos.lateMark
  refine List.Pairwise.filterMap _ (fun a b hab p hp q hq t u ht hu => ?_) hkeys
  obtain ⟨-, -, e, -, -, rfl⟩ := lateCandidate_eq_some.mp hp
  obtain ⟨-, -, f, -, -, rfl⟩ := lateCandidate_eq_some.mp hq
  obtain rfl := Option.some.inj ht
  obtain rfl := Option.some.inj hu
  exact hab

end candidates

section marks

variable {l : List (LogEntry × Option LateTag)}

/-- Late records in number order leave the mark at the last of them. -/
theorem le_markAfter (h : l.Pairwise fun p q => ∀ t u, p.2 = some t → q.2 = some u → t.number < u.number)
    (mark : ℕ) {p : LogEntry × Option LateTag} {t : LateTag} (hp : p ∈ l) (ht : p.2 = some t) :
    t.number ≤ markAfter mark l := by
  have htags : (l.filterMap Prod.snd).Pairwise fun t u => t.number < u.number :=
    List.Pairwise.filterMap _ (fun p q hpq t ht u hu => hpq t u ht hu) h
  have hmem : t ∈ l.filterMap Prod.snd := List.mem_filterMap.mpr ⟨p, hp, ht⟩
  unfold markAfter
  cases hlast : (l.filterMap Prod.snd).getLast? with
  | none =>
    have : l.filterMap Prod.snd = [] := by simpa using hlast
    rw [this] at hmem
    exact absurd hmem List.not_mem_nil
  | some u =>
    obtain ⟨ts, hts⟩ := List.getLast?_eq_some_iff.mp hlast
    rw [hts] at hmem htags
    rcases List.mem_append.mp hmem with hm | hm
    · exact ((List.pairwise_append.mp htags).2.2 t hm u (by simp)).le
    · rw [List.mem_singleton.mp hm]

theorem markAfter_eq_or (mark : ℕ) (l : List (LogEntry × Option LateTag)) :
    markAfter mark l = mark ∨ ∃ p ∈ l, ∃ t, p.2 = some t ∧ t.number = markAfter mark l := by
  unfold markAfter
  cases hlast : (l.filterMap Prod.snd).getLast? with
  | none => exact Or.inl rfl
  | some t =>
    obtain ⟨p, hp, ht⟩ := List.mem_filterMap.mp (List.mem_of_getLast? hlast)
    exact Or.inr ⟨p, hp, t, ht, rfl⟩

end marks

theorem foldl_max_spec : ∀ (l : List ℕ) (a : ℕ),
    (l.foldl max a = a ∨ l.foldl max a ∈ l) ∧ a ≤ l.foldl max a ∧ ∀ x ∈ l, x ≤ l.foldl max a
  | [], a => by simp
  | x :: l, a => by
    obtain ⟨h1, h2, h3⟩ := foldl_max_spec l (max a x)
    refine ⟨?_, le_trans (le_max_left _ _) h2, fun y hy => ?_⟩
    · rw [List.foldl_cons]
      rcases h1 with h1 | h1
      · rcases le_total a x with h | h
        · exact Or.inr (by rw [h1, max_eq_right h]; exact List.mem_cons_self)
        · exact Or.inl (by rw [h1, max_eq_left h])
      · exact Or.inr (List.mem_cons_of_mem _ h1)
    · rcases List.mem_cons.mp hy with rfl | hy
      · exact le_trans (le_max_right _ _) h2
      · exact h3 y hy

/-! ### The cursor's bookkeeping -/

/-- A read's filter takes every record that `P` selects, wherever the read
meets it. -/
structure Selects (E : TextEnv) (P : LogEntry → Prop) (filter : Option ParsedFilter) (pos : CursorPos) : Prop where
  normal : ∀ e, P e → pos.seq < e.seq → matchesOpt? E filter e = true
  late : ∀ e, P e → matchesPast? E filter e = true

/-- A cursor at `pos`, of which the seqs `D` were delivered, owes no record
that `P` selects: what it passed was delivered or has a number above the
mark. -/
structure Covers (P : LogEntry → Prop) (r : InMemoryStore) (pos : CursorPos) (D : List ℕ) : Prop where
  floor_le : pos.floor ≤ pos.seq
  mark_le : pos.lateMark ≤ r.lateCounter
  seq_mem : pos.seq = pos.floor ∨ pos.seq ∈ D
  top : ∀ s ∈ D, s ≤ u64Max
  reached : ∀ s ∈ D, (∃ e ∈ r.entries, e.seq = s) ∨ satAdd s 1 ≤ r.lostBelow
  complete : ∀ e ∈ r.entries, P e → pos.floor < e.seq → e.seq ≤ pos.seq →
    e.seq ∈ D ∨ ∃ n, r.lateBySeq.get? e.seq = some n ∧ pos.lateMark < n

/-- What was delivered was delivered once, above the floor, and has no
number above the mark. -/
structure Once (r : InMemoryStore) (pos : CursorPos) (D : List ℕ) : Prop where
  nodup : D.Nodup
  above : ∀ s ∈ D, pos.floor < s
  le : ∀ s ∈ D, s ≤ pos.seq
  read_late : ∀ s ∈ D, ∀ n, r.lateBySeq.get? s = some n → n ≤ pos.lateMark

section bookkeeping

variable {P : LogEntry → Prop} {r r' : InMemoryStore} {pos : CursorPos} {D : List ℕ}

/-- A seq that was held and left does not come back late. -/
theorem Evolves.not_late_again (h : r.Evolves r') {e : LogEntry} (he : e ∈ r'.entries) (hnew : e ∉ r.entries)
    (hlost : satAdd e.seq 1 ≤ r.lostBelow) : ¬ ∃ x ∈ r.entries, e.seq < x.seq := by
  rintro ⟨x, -, hlt⟩
  have hfloor := (h.fresh e he hnew).1
  have htop := x.seq_le
  rw [satAdd_one (by omega)] at hlost
  omega

/-- A write keeps the cursor covered. -/
theorem Covers.evolve (h : Covers P r pos D) (hev : r.Evolves r') : Covers P r' pos D where
  floor_le := h.floor_le
  mark_le := le_trans h.mark_le hev.counter_mono
  seq_mem := h.seq_mem
  top := h.top
  reached s hs := by
    rcases h.reached s hs with ⟨e, he, rfl⟩ | hlost
    · rcases hev.kept_or_lost e he with hk | hl
      · exact Or.inl ⟨e, hk, rfl⟩
      · exact Or.inr hl
    · exact Or.inr (le_trans hlost hev.lost_mono)
  complete e he hP hfloor hle := by
    by_cases hold : e ∈ r.entries
    · rw [hev.number_kept e hold he]
      exact h.complete e hold hP hfloor hle
    -- a new record at or below the position: the position was reached, so the record is below it
    · have hmem : pos.seq ∈ D := h.seq_mem.resolve_left (by omega)
      obtain ⟨hlow, hne⟩ := hev.fresh e he hold
      rcases h.reached pos.seq hmem with ⟨x, hx, hxs⟩ | hlost
      · have := hne x hx
        obtain ⟨n, hn⟩ := (hev.late_iff e he hold).mp ⟨x, hx, by omega⟩
        have := hev.late_new e he hold n hn
        have := h.mark_le
        exact Or.inr ⟨n, hn, by omega⟩
      · -- only the top seq can be stored again
        have heq : e.seq = pos.seq := by
          have : pos.seq ≤ satAdd pos.seq 1 := le_satAdd (h.top pos.seq hmem)
          omega
        exact Or.inl (heq ▸ hmem)

/-- Delivering more keeps the cursor covered. -/
theorem Covers.deliver (h : Covers P r pos D) {D' : List ℕ} (hsub : ∀ s ∈ D, s ∈ D')
    (hD' : ∀ s ∈ D', s ≤ u64Max ∧ ((∃ e ∈ r.entries, e.seq = s) ∨ satAdd s 1 ≤ r.lostBelow)) : Covers P r pos D' where
  floor_le := h.floor_le
  mark_le := h.mark_le
  seq_mem := h.seq_mem.imp_right (hsub _)
  top s hs := (hD' s hs).1
  reached s hs := (hD' s hs).2
  complete e he hP hfloor hle := (h.complete e he hP hfloor hle).imp_left (hsub _)

/-- A cursor just created owes nothing. -/
theorem covers_new {D : List ℕ} {s m : ℕ} (hm : m ≤ r.lateCounter)
    (hD : ∀ s ∈ D, s ≤ u64Max ∧ ((∃ e ∈ r.entries, e.seq = s) ∨ satAdd s 1 ≤ r.lostBelow)) :
    Covers P r ⟨s, m, s⟩ D where
  floor_le := le_rfl
  mark_le := hm
  seq_mem := Or.inl rfl
  top s hs := (hD s hs).1
  reached s hs := (hD s hs).2
  complete _ _ _ h1 h2 := absurd h2 (Nat.not_le.mpr h1)

/-- Under a higher floor the cursor owes less. -/
theorem Covers.raise_floor (h : Covers P r pos D) {f : ℕ} (hf : pos.floor ≤ f) (hle : f ≤ pos.seq) :
    Covers P r { pos with floor := f } D where
  floor_le := hle
  mark_le := h.mark_le
  seq_mem := h.seq_mem.imp_left fun heq => by
    show pos.seq = f
    omega
  top := h.top
  reached := h.reached
  complete e he hP hfloor hes := h.complete e he hP (lt_of_le_of_lt hf hfloor) hes

/-- A write keeps what was delivered delivered once. -/
theorem Once.evolve (h : Once r pos D) (hc : Covers P r pos D) (hev : r.Evolves r') (hwf' : r'.WF) :
    Once r' pos D where
  nodup := h.nodup
  above := h.above
  le := h.le
  read_late s hs n hn := by
    obtain ⟨e, he, rfl⟩ := hwf'.lateHeld s n hn
    by_cases hold : e ∈ r.entries
    · rw [hev.number_kept e hold he] at hn
      exact h.read_late _ hs n hn
    · have hbelow := (hev.late_iff e he hold).mpr ⟨n, hn⟩
      rcases hc.reached _ hs with ⟨x, hx, hxs⟩ | hlost
      · exact absurd hxs ((hev.fresh e he hold).2 x hx)
      · exact absurd hbelow (hev.not_late_again he hold hlost)

/-! ### A commit -/

variable {E : TextEnv} {count : ℕ} {filter : Option ParsedFilter}

/-- The seqs a commit of the first `k` delivers. -/
def keptSeqs (read : CursorRead) (k : ℕ) : List ℕ := (read.keptEntries k).map LogEntry.seq

theorem mem_keptEntries (hwf : r.WF) {k : ℕ} {e : LogEntry}
    (he : e ∈ (cursorRead E r count filter pos).keptEntries k) :
    e ∈ r.entries ∧ (pos.floor < e.seq ∨ pos.seq < e.seq) := by
  rw [keptEntries_eq hwf.late] at he
  obtain ⟨p, hp, rfl⟩ := List.mem_map.mp he
  rcases List.mem_append.mp (List.mem_of_mem_take hp) with hp | hp
  · obtain ⟨n, i, -, h1, -, -, h2, -⟩ := hwf.of_mem_lateCandidates hp
    exact ⟨h1, Or.inl h2⟩
  · obtain ⟨h1, h2, -, -⟩ := mem_normalCandidates.mp hp
    exact ⟨h1, Or.inr h2⟩

/-- The normal part is in seq order. -/
theorem WF.asc_normalCandidates (hwf : r.WF) : Asc (fun p => p.1.seq) (normalCandidates E r filter pos) := by
  unfold normalCandidates Asc
  rw [List.pairwise_map]
  exact hwf.asc.filter _

/-- Keeping late records moves the mark up, within the numbers handed out. -/
theorem WF.markAfter_bounds (hwf : r.WF) {C : List (LogEntry × Option LateTag)}
    (hC : ∀ p ∈ C, p ∈ lateCandidates E r filter pos) :
    pos.lateMark ≤ markAfter pos.lateMark C ∧ markAfter pos.lateMark C ≤ max r.lateCounter pos.lateMark := by
  rcases markAfter_eq_or pos.lateMark C with hm | ⟨p, hp, t, ht, hm⟩
  · exact ⟨hm.ge, hm.le.trans (le_max_right _ _)⟩
  · obtain ⟨n, i, hni, -, hnum, hlt, -⟩ := hwf.of_mem_lateCandidates (hC p hp)
    obtain rfl : t = ⟨n, i⟩ := Option.some.inj (ht.symm.trans hni)
    have := (hwf.late.handed n _ ((hwf.late.inverse n _).mpr hnum)).2
    rw [← hm]
    exact ⟨hlt.le, this.trans (le_max_left _ _)⟩

/-- A commit moves the position up only, and the mark within the numbers
handed out. -/
theorem WF.posFor_bounds (hwf : r.WF) (E : TextEnv) (count : ℕ) (filter : Option ParsedFilter) (pos : CursorPos)
    (k : ℕ) : pos.seq ≤ ((cursorRead E r count filter pos).posFor k).seq ∧
      pos.lateMark ≤ ((cursorRead E r count filter pos).posFor k).lateMark ∧
      ((cursorRead E r count filter pos).posFor k).lateMark ≤ max r.lateCounter pos.lateMark := by
  by_cases hall : PassesLate E r count filter pos k
  · rw [(commit_all hwf.late hall).2]
    exact ⟨(foldl_max_spec _ _).2.1, le_max_right _ _, le_rfl⟩
  · rw [(commit_part hwf.late hall).2]
    exact ⟨le_rfl, hwf.markAfter_bounds fun p hp => List.mem_of_mem_take hp⟩

/-- A commit moves the seq when it keeps a record above it. -/
theorem WF.posFor_seq_eq_iff (hwf : r.WF) (E : TextEnv) (count : ℕ) (filter : Option ParsedFilter) (pos : CursorPos)
    (k : ℕ) : ((cursorRead E r count filter pos).posFor k).seq = pos.seq ↔
      ∀ e ∈ (cursorRead E r count filter pos).keptEntries k, e.seq ≤ pos.seq := by
  have hlate : ∀ p ∈ lateCandidates E r filter pos, p.1.seq ≤ pos.seq := by
    intro p hp
    obtain ⟨-, -, -, -, -, -, -, hle⟩ := hwf.of_mem_lateCandidates hp
    exact hle
  by_cases hall : PassesLate E r count filter pos k
  · obtain ⟨hkept, hpos⟩ := commit_all hwf.late hall
    rw [hkept, hpos]
    set N := (normalCandidates E r filter pos).take (min k count - (lateCandidates E r filter pos).length)
    obtain ⟨hmax, -, hub⟩ := foldl_max_spec (N.map fun p => p.1.seq) pos.seq
    refine ⟨fun heq e he => ?_, fun hle => ?_⟩
    · obtain ⟨p, hp, rfl⟩ := List.mem_map.mp he
      rcases List.mem_append.mp hp with hp | hp
      · exact hlate p hp
      · rw [← heq]
        exact hub _ (List.mem_map.mpr ⟨p, hp, rfl⟩)
    · rcases hmax with hm | hm
      · exact hm
      · -- a normal record kept lies above the position
        obtain ⟨p, hp, -⟩ := List.mem_map.mp hm
        have habove := (mem_normalCandidates.mp (List.mem_of_mem_take hp)).2.1
        have := hle p.1 (List.mem_map_of_mem (List.mem_append_right _ hp))
        omega
  · obtain ⟨hkept, hpos⟩ := commit_part hwf.late hall
    rw [hkept, hpos]
    refine ⟨fun _ e he => ?_, fun _ => rfl⟩
    obtain ⟨p, hp, rfl⟩ := List.mem_map.mp he
    exact hlate p (List.mem_of_mem_take hp)

/-- **A commit keeps the cursor covered**: of what its read could take, it
delivers what it passes. -/
theorem Covers.advance (h : Covers P r pos D) (hwf : r.WF) (hsel : Selects E P filter pos) (k : ℕ) :
    Covers P r ((cursorRead E r count filter pos).posFor k)
      (D ++ keptSeqs (cursorRead E r count filter pos) k) := by
  set read := cursorRead E r count filter pos with hread
  have hheld : ∀ s ∈ D ++ keptSeqs read k, s ≤ u64Max ∧
      ((∃ e ∈ r.entries, e.seq = s) ∨ satAdd s 1 ≤ r.lostBelow) := by
    intro s hs
    rcases List.mem_append.mp hs with hs | hs
    · exact ⟨h.top s hs, h.reached s hs⟩
    · obtain ⟨e, he, rfl⟩ := List.mem_map.mp hs
      exact ⟨e.seq_le, Or.inl ⟨e, (mem_keptEntries hwf he).1, rfl⟩⟩
  by_cases hall : PassesLate E r count filter pos k
  · obtain ⟨hkept, hpos⟩ := commit_all hwf.late hall
    rw [← hread] at hkept hpos
    set j := min k count - (lateCandidates E r filter pos).length
    set S := ((normalCandidates E r filter pos).take j).map fun p => p.1.seq with hS
    obtain ⟨hmax, hle, hub⟩ := foldl_max_spec S pos.seq
    have hSkept : ∀ s ∈ S, s ∈ keptSeqs read k := by
      intro s hs
      obtain ⟨p, hp, rfl⟩ := List.mem_map.mp hs
      unfold keptSeqs
      rw [hkept]
      exact List.mem_map_of_mem (List.mem_map_of_mem (List.mem_append_right _ hp))
    rw [hpos]
    refine ⟨le_trans h.floor_le hle, max_le le_rfl h.mark_le, ?_, fun s hs => (hheld s hs).1,
      fun s hs => (hheld s hs).2, ?_⟩
    · rcases hmax with hm | hm
      · rcases h.seq_mem with hs | hs
        · exact Or.inl (hm.trans hs)
        · exact Or.inr (List.mem_append_left _ (by rw [hm]; exact hs))
      · exact Or.inr (List.mem_append_right _ (hSkept _ hm))
    · intro e he hP hfloor hes
      by_cases hbelow : e.seq ≤ pos.seq
      · rcases h.complete e he hP hfloor hbelow with hD | ⟨n, hn, hmark⟩
        · exact Or.inl (List.mem_append_left _ hD)
        · obtain ⟨i, hi⟩ := hwf.exists_mem_lateCandidates he hn hmark hfloor hbelow (hsel.late e hP)
          refine Or.inl (List.mem_append_right _ ?_)
          unfold keptSeqs
          rw [hkept]
          exact List.mem_map_of_mem (List.mem_map_of_mem (f := Prod.fst) (List.mem_append_left _ hi))
      · -- above the old position: the normal part has it, at or below its last record kept
        have hlt : pos.seq < e.seq := by omega
        have hN : (e, none) ∈ normalCandidates E r filter pos :=
          mem_normalCandidates.mpr ⟨he, hlt, hsel.normal e hP hlt, rfl⟩
        rcases hmax with hm | hm
        · have hes' : e.seq ≤ S.foldl max pos.seq := hes
          omega
        · obtain ⟨q, hq, hqs⟩ := List.mem_map.mp hm
          rw [← List.take_append_drop j (normalCandidates E r filter pos)] at hN
          rcases List.mem_append.mp hN with hN | hN
          · refine Or.inl (List.mem_append_right _ (hSkept _ ?_))
            exact List.mem_map.mpr ⟨_, hN, rfl⟩
          · have hlt := hwf.asc_normalCandidates.take_lt_drop j q hq _ hN
            have hes' : e.seq ≤ S.foldl max pos.seq := hes
            simp only at hlt hqs
            omega
  · obtain ⟨hkept, hpos⟩ := commit_part hwf.late hall
    rw [← hread] at hkept hpos
    set j := min k count
    rw [hpos]
    refine ⟨h.floor_le, ?_, ?_, fun s hs => (hheld s hs).1, fun s hs => (hheld s hs).2, ?_⟩
    · exact (hwf.markAfter_bounds fun p hp => List.mem_of_mem_take hp).2.trans (max_le le_rfl h.mark_le)
    · exact h.seq_mem.imp_right (List.mem_append_left _)
    · intro e he hP hfloor hes
      rcases h.complete e he hP hfloor hes with hD | ⟨n, hn, hmark⟩
      · exact Or.inl (List.mem_append_left _ hD)
      · obtain ⟨i, hi⟩ := hwf.exists_mem_lateCandidates he hn hmark hfloor hes (hsel.late e hP)
        have hpw : (lateCandidates E r filter pos).Pairwise _ := pairwise_lateCandidates
        rw [← List.take_append_drop j (lateCandidates E r filter pos)] at hi hpw
        rcases List.mem_append.mp hi with hi | hi
        · refine Or.inl (List.mem_append_right _ ?_)
          unfold keptSeqs
          rw [hkept]
          exact List.mem_map_of_mem (List.mem_map_of_mem (f := Prod.fst) hi)
        · refine Or.inr ⟨n, hn, ?_⟩
          rcases markAfter_eq_or pos.lateMark ((lateCandidates E r filter pos).take j) with hm | ⟨p, hp, t, ht, hm⟩
          · simp only
            rw [hm]
            exact hmark
          · have := (List.pairwise_append.mp hpw).2.2 p hp _ hi t ⟨n, i⟩ ht rfl
            simp only at this ⊢
            omega

/-- The late part takes a record once. -/
theorem WF.nodup_lateCandidates (hwf : r.WF) :
    ((lateCandidates E r filter pos).map fun p => p.1.seq).Nodup := by
  unfold List.Nodup
  rw [List.pairwise_map]
  refine pairwise_lateCandidates.imp_of_mem fun {p q} hp hq hlt heq => ?_
  obtain ⟨n, i, hni, -, hn, -⟩ := hwf.of_mem_lateCandidates hp
  obtain ⟨m, j, hmj, -, hm, -⟩ := hwf.of_mem_lateCandidates hq
  have := hlt _ _ hni hmj
  have hnm : some n = some m := by rw [← hn, ← hm, heq]
  have := Option.some.inj hnm
  simp only at *
  omega

/-- What was delivered is not a late candidate. -/
theorem Once.not_mem_late (h : Once r pos D) (hwf : r.WF) {s : ℕ} (hs : s ∈ D)
    {p : LogEntry × Option LateTag} (hp : p ∈ lateCandidates E r filter pos) : s ≠ p.1.seq := by
  rintro rfl
  obtain ⟨n, i, -, -, hn, hmark, -⟩ := hwf.of_mem_lateCandidates hp
  have := h.read_late _ hs n hn
  omega

/-- **A commit delivers each record once.** -/
theorem Once.advance (h : Once r pos D) (hc : Covers P r pos D) (hwf : r.WF) (k : ℕ) :
    Once r ((cursorRead E r count filter pos).posFor k)
      (D ++ keptSeqs (cursorRead E r count filter pos) k) := by
  set read := cursorRead E r count filter pos with hread
  have habove : ∀ s ∈ D ++ keptSeqs read k, pos.floor < s := by
    intro s hs
    rcases List.mem_append.mp hs with hs | hs
    · exact h.above s hs
    · obtain ⟨e, he, rfl⟩ := List.mem_map.mp hs
      have := (mem_keptEntries hwf he).2
      have := hc.floor_le
      omega
  by_cases hall : PassesLate E r count filter pos k
  · obtain ⟨hkept, hpos⟩ := commit_all hwf.late hall
    rw [← hread] at hkept hpos
    set C := lateCandidates E r filter pos with hC
    set N := (normalCandidates E r filter pos).take (min k count - C.length) with hN
    obtain ⟨-, hle, hub⟩ := foldl_max_spec (N.map fun p => p.1.seq) pos.seq
    have hseqs : keptSeqs read k = C.map (fun p => p.1.seq) ++ N.map fun p => p.1.seq := by
      unfold keptSeqs
      rw [hkept, List.map_map, List.map_append]
      rfl
    have hNabove : ∀ p ∈ N, pos.seq < p.1.seq := fun p hp =>
      (mem_normalCandidates.mp (List.mem_of_mem_take hp)).2.1
    have hCbelow : ∀ p ∈ C, p.1.seq ≤ pos.seq := by
      intro p hp
      obtain ⟨-, -, -, -, -, -, -, h⟩ := hwf.of_mem_lateCandidates hp
      exact h
    have hNasc : Asc (fun p => p.1.seq) N :=
      (hwf.asc_normalCandidates (E := E)).sublist (List.take_sublist _ _)
    rw [hpos]
    refine ⟨?_, habove, ?_, ?_⟩
    · rw [hseqs, List.nodup_append, List.nodup_append]
      refine ⟨h.nodup, ⟨hwf.nodup_lateCandidates, hNasc.nodup_keys, ?_⟩, ?_⟩
      · intro s hs t ht
        obtain ⟨p, hp, rfl⟩ := List.mem_map.mp hs
        obtain ⟨q, hq, rfl⟩ := List.mem_map.mp ht
        have := hCbelow p hp
        have := hNabove q hq
        omega
      · intro s hs t ht
        rcases List.mem_append.mp ht with ht | ht
        · obtain ⟨p, hp, rfl⟩ := List.mem_map.mp ht
          exact h.not_mem_late hwf hs hp
        · obtain ⟨q, hq, rfl⟩ := List.mem_map.mp ht
          have := h.le s hs
          have := hNabove q hq
          omega
    · intro s hs
      rw [hseqs] at hs
      simp only
      rcases List.mem_append.mp hs with hs | hs
      · exact le_trans (h.le s hs) hle
      · rcases List.mem_append.mp hs with hs | hs
        · obtain ⟨p, hp, rfl⟩ := List.mem_map.mp hs
          exact le_trans (hCbelow p hp) hle
        · exact hub s hs
    · intro s _ n hn
      exact le_trans (hwf.late.handed n s ((hwf.late.inverse n s).mpr hn)).2 (le_max_left _ _)
  · obtain ⟨hkept, hpos⟩ := commit_part hwf.late hall
    rw [← hread] at hkept hpos
    set C := (lateCandidates E r filter pos).take (min k count) with hC
    have hCmem : ∀ p ∈ C, p ∈ lateCandidates E r filter pos := fun p hp => List.mem_of_mem_take hp
    have hseqs : keptSeqs read k = C.map fun p => p.1.seq := by
      unfold keptSeqs
      rw [hkept, List.map_map]
      rfl
    have hpw : C.Pairwise _ := pairwise_lateCandidates.sublist (List.take_sublist _ _)
    have hmark : pos.lateMark ≤ markAfter pos.lateMark C := (hwf.markAfter_bounds hCmem).1
    rw [hpos]
    refine ⟨?_, habove, ?_, ?_⟩
    · rw [hseqs, List.nodup_append]
      refine ⟨h.nodup, hwf.nodup_lateCandidates.sublist ((List.take_sublist _ _).map _), ?_⟩
      intro s hs t ht
      obtain ⟨p, hp, rfl⟩ := List.mem_map.mp ht
      exact h.not_mem_late hwf hs (hCmem p hp)
    · intro s hs
      rw [hseqs] at hs
      rcases List.mem_append.mp hs with hs | hs
      · exact h.le s hs
      · obtain ⟨p, hp, rfl⟩ := List.mem_map.mp hs
        obtain ⟨-, -, -, -, -, -, -, hle⟩ := hwf.of_mem_lateCandidates (hCmem p hp)
        exact hle
    · intro s hs n hn
      rw [hseqs] at hs
      simp only
      rcases List.mem_append.mp hs with hs | hs
      · exact le_trans (h.read_late s hs n hn) hmark
      · obtain ⟨p, hp, rfl⟩ := List.mem_map.mp hs
        obtain ⟨m, i, hmi, -, hm, -⟩ := hwf.of_mem_lateCandidates (hCmem p hp)
        obtain rfl : m = n := Option.some.inj (hm.symm.trans hn)
        exact le_markAfter hpw pos.lateMark hp hmi

/-- **A read that was not cut leaves nothing behind**: every held record that
`P` selects above the floor was delivered or is in the read. -/
theorem Covers.short_read (h : Covers P r pos D) (hwf : r.WF) (hsel : Selects E P filter pos)
    (hshort : (cursorRead E r count filter pos).entries.length < count) :
    ∀ e ∈ r.entries, P e → pos.floor < e.seq →
      e.seq ∈ D ∨ e ∈ (cursorRead E r count filter pos).entries.map Prod.fst := by
  intro e he hP hfloor
  have hentries : (cursorRead E r count filter pos).entries =
      lateCandidates E r filter pos ++ normalCandidates E r filter pos := by
    rw [cursorRead_entries hwf.late] at hshort ⊢
    rw [List.length_take] at hshort
    exact List.take_of_length_le (by omega)
  rw [hentries]
  by_cases hle : e.seq ≤ pos.seq
  · rcases h.complete e he hP hfloor hle with hD | ⟨n, hn, hmark⟩
    · exact Or.inl hD
    · obtain ⟨i, hi⟩ := hwf.exists_mem_lateCandidates he hn hmark hfloor hle (hsel.late e hP)
      exact Or.inr (List.mem_map.mpr ⟨_, List.mem_append_left _ hi, rfl⟩)
  · have hlt : pos.seq < e.seq := by omega
    have hN : (e, none) ∈ normalCandidates E r filter pos :=
      mem_normalCandidates.mpr ⟨he, hlt, hsel.normal e hP hlt, rfl⟩
    exact Or.inr (List.mem_map.mpr ⟨_, List.mem_append_right _ hN, rfl⟩)

end bookkeeping

end InMemoryStore
end Logmon
