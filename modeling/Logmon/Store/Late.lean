/-
# Late numbers

A late number is handed out for each record stored below the newest held, in
the order they are stored: `issued` lists them, and the late maps are its
held part (`Issues`). A commit that moves a cursor's mark passes a run of
numbers; those whose record the ring no longer held when the read ran
(`numbersGone`) are what it reports as lost.

Key definitions: `lateStored`, `Issues`, `numbersGone`.
Key theorems: `Issues.apply`, `length_numbersGone`, `lateLost_advanceFor`.
-/
import Logmon.Store.Cursor

namespace Logmon

open Lib

namespace InMemoryStore

/-! ### The numbers handed out -/

/-- The records of `r'` that `r` did not hold and that lie below the newest
`r` held: what was stored late, ascending. -/
def lateStored (r r' : InMemoryStore) : List ℕ :=
  (r'.entries.filter fun e => decide (e ∉ r.entries) &&
    r.entries.getLast?.any fun newest => decide (e.seq < newest.seq)).map LogEntry.seq

/-- `issued` lists the seqs numbered so far, and the late maps number its
held part. -/
structure Issues (r : InMemoryStore) (issued : List ℕ) : Prop where
  counter : r.lateCounter = issued.length
  nodup : issued.Nodup
  top : ∀ s ∈ issued, s < u64Max
  reached : ∀ s ∈ issued, (∃ e ∈ r.entries, e.seq = s) ∨ satAdd s 1 ≤ r.lostBelow
  numbered : ∀ n s, r.lateBySeq.get? s = some n ↔
    1 ≤ n ∧ issued[n - 1]? = some s ∧ ∃ e ∈ r.entries, e.seq = s

theorem below_newest_iff {r : InMemoryStore} (h : Asc LogEntry.seq r.entries) (s : ℕ) :
    (r.entries.getLast?.any fun newest => decide (s < newest.seq)) = true ↔ ∃ x ∈ r.entries, s < x.seq := by
  cases hn : r.entries.getLast? with
  | none =>
    have : r.entries = [] := by simpa using hn
    simp [this]
  | some newest =>
    have hle := le_newest h hn
    simp only [Option.any_some, decide_eq_true_eq]
    constructor
    · intro hlt
      exact ⟨newest, List.mem_of_getLast? hn, hlt⟩
    · rintro ⟨x, hx, hlt⟩
      have := hle x hx
      omega

section issues

variable {r : InMemoryStore} {issued : List ℕ}

/-- What an offer stores late is what it numbers. -/
theorem WF.lateStored_offer (h : r.WF) (batch : List LogEntry) :
    lateStored r (r.offer batch) = r.lateKept (r.admitted batch) := by
  have hfits := h.fits_admitted batch
  refine Asc.ext id ((h.offer batch).asc.filter _).map_keys
    (hfits.asc.map_keys.sublist (r.lateKept_sublist _)) fun s => ?_
  unfold lateStored
  simp only [List.mem_map, List.mem_filter, Bool.and_eq_true, decide_eq_true_eq, below_newest_iff h.asc]
  constructor
  · rintro ⟨e, ⟨he, hnew, hbelow⟩, rfl⟩
    exact (h.mem_lateKept he hnew).mpr hbelow
  · intro hs
    obtain ⟨e, hk, hb, rfl⟩ := held_of_mem_lateKept hs
    have hnew : e ∉ r.entries := fun hin => hfits.fresh e hin e hb rfl
    have he : e ∈ (r.offer batch).entries := by rwa [offer_entries]
    exact ⟨e, ⟨he, hnew, (h.mem_lateKept he hnew).mp hs⟩, rfl⟩

/-- A seq numbered before is not admitted again. -/
theorem Issues.not_admitted (hi : Issues r issued) (h : r.WF) {batch : List LogEntry} {e : LogEntry}
    (he : e ∈ r.admitted batch) : e.seq ∉ issued := by
  intro hin
  have hfits := h.fits_admitted batch
  rcases hi.reached _ hin with ⟨x, hx, hxe⟩ | hlost
  · exact hfits.fresh x hx e he hxe
  · have hfloor : r.lostBelow ≤ e.seq := le_trans (le_max_left _ _) (hfits.floor e he)
    have htop := hi.top _ hin
    rw [satAdd_one htop] at hlost
    omega

theorem Issues.offer (hi : Issues r issued) (h : r.WF) (batch : List LogEntry) :
    Issues (r.offer batch) (issued ++ r.lateKept (r.admitted batch)) where
  counter := by
    rw [offer_lateCounter, hi.counter, List.length_append]
  nodup := by
    rw [List.nodup_append]
    refine ⟨hi.nodup, (h.fits_admitted batch).nodup_lateKept, fun s hs t ht => ?_⟩
    rintro rfl
    obtain ⟨e, -, he, rfl⟩ := held_of_mem_lateKept ht
    exact hi.not_admitted h he hs
  top s hs := by
    rcases List.mem_append.mp hs with hs | hs
    · exact hi.top s hs
    · obtain ⟨e, hk, hb, rfl⟩ := held_of_mem_lateKept hs
      have hnew : e ∉ r.entries := fun hin => (h.fits_admitted batch).fresh e hin e hb rfl
      obtain ⟨x, -, hlt⟩ := (h.mem_lateKept (by rwa [offer_entries]) hnew).mp hs
      have := x.seq_le
      omega
  reached s hs := by
    rcases List.mem_append.mp hs with hs | hs
    · have hev := h.evolves_offer batch
      rcases hi.reached s hs with ⟨e, he, rfl⟩ | hlost
      · exact (hev.kept_or_lost e he).imp (fun hk => ⟨e, hk, rfl⟩) id
      · exact Or.inr (le_trans hlost hev.lost_mono)
    · obtain ⟨e, hk, -, rfl⟩ := held_of_mem_lateKept hs
      exact Or.inl ⟨e, by rwa [offer_entries], rfl⟩
  numbered n s := by
    rw [h.offer_lateBySeq batch, hi.counter]
    have hfits := h.fits_admitted batch
    constructor
    · rintro (⟨i, hidx, rfl⟩ | ⟨-, hover, hold⟩)
      · obtain ⟨e, hk, -, rfl⟩ := held_of_mem_lateKept (List.mem_of_getElem? hidx)
        refine ⟨by omega, ?_, e, by rwa [offer_entries], rfl⟩
        rw [List.getElem?_append_right (by omega)]
        rwa [show issued.length + 1 + i - 1 - issued.length = i by omega]
      · obtain ⟨h1, hidx, e, he, rfl⟩ := (hi.numbered n s).mp hold
        have hlt : n - 1 < issued.length := (List.getElem?_eq_some_iff.mp hidx).1
        refine ⟨h1, by rwa [List.getElem?_append_left hlt], e, ?_, rfl⟩
        rw [offer_entries]
        rcases mem_overflow_or_keptOf (b := r.admitted batch) (Or.inl he) with ho | hk
        · exact absurd (List.mem_map_of_mem ho) hover
        · exact hk
    · rintro ⟨h1, hidx, e, he, rfl⟩
      by_cases hlt : n - 1 < issued.length
      · rw [List.getElem?_append_left hlt] at hidx
        have hin : e.seq ∈ issued := List.mem_of_getElem? hidx
        -- an issued seq that is held now was held before
        have hold : e ∈ r.entries := by
          by_contra hnew
          exact hi.not_admitted h (mem_admitted_of_new he hnew) hin
        rw [offer_entries] at he
        refine Or.inr ⟨fun hl => ?_, h.not_mem_overflow_seqs hfits he, (hi.numbered n _).mpr ⟨h1, hidx, e, hold, rfl⟩⟩
        obtain ⟨x, -, hx, hxe⟩ := held_of_mem_lateKept hl
        exact hfits.fresh e hold x hx hxe.symm
      · rw [List.getElem?_append_right (by omega)] at hidx
        exact Or.inl ⟨n - 1 - issued.length, hidx, by omega⟩

/-- A clear forgets the numbered records, not the count. -/
theorem Issues.clearLocked (hi : Issues r issued) (h : r.WF) (admits : ℕ) :
    Issues { r.clearLocked with admitFrom := admits } issued := by
  have hev := h.evolves_clearLocked admits
  rw [clearLocked_eq h.asc] at hev ⊢
  refine ⟨hi.counter, hi.nodup, hi.top, fun s hs => ?_, by simp⟩
  rcases hi.reached s hs with ⟨e, he, rfl⟩ | hlost
  · exact (hev.kept_or_lost e he).imp (fun hk => ⟨e, hk, rfl⟩) id
  · exact Or.inr (le_trans hlost hev.lost_mono)

/-- **Every write keeps the numbering**: it numbers what it stores late. -/
theorem Issues.apply (hi : Issues r issued) (h : r.WF) (op : RingOp) :
    Issues (r.apply op) (issued ++ lateStored r (r.apply op)) := by
  cases op with
  | append e =>
    change Issues (r.append e) (issued ++ lateStored r (r.append e))
    rw [h.append_eq_offer, h.lateStored_offer]
    exact hi.offer h [e]
  | insertSorted batch =>
    change Issues (r.insertSorted batch) (issued ++ lateStored r (r.insertSorted batch))
    rw [h.insertSorted_eq_offer, h.lateStored_offer]
    exact hi.offer h batch
  | clear =>
    have hnil : lateStored r (r.apply .clear) = [] := rfl
    rw [hnil, List.append_nil]
    exact hi.clearLocked h r.clearLocked.admitFrom
  | clearThrough n =>
    have hnil : lateStored r (r.apply (.clearThrough n)) = [] := rfl
    rw [hnil, List.append_nil]
    exact hi.clearLocked h _

theorem issues_new (cap : ℕ) (h : cap ≤ u64Max) : Issues (new cap h) [] := by
  constructor <;> simp [new]

end issues

/-! ### The numbers a commit passes -/

/-- The numbers in `(a, b]` whose record is not held. -/
def numbersGone (r : InMemoryStore) (a b : ℕ) : List ℕ :=
  (List.range' (a + 1) (b - a)).filter fun n => (r.late.get? n).isNone

theorem mem_numbersGone {r : InMemoryStore} {a b n : ℕ} :
    n ∈ r.numbersGone a b ↔ a < n ∧ n ≤ b ∧ r.late.get? n = none := by
  unfold numbersGone
  rw [List.mem_filter, List.mem_range'_1, Option.isNone_iff_eq_none, ← and_assoc]
  refine and_congr_left fun _ => ?_
  omega

theorem nodup_numbersGone (r : InMemoryStore) (a b : ℕ) : (r.numbersGone a b).Nodup :=
  (List.nodup_range' _ (by omega)).sublist List.filter_sublist

/-- Of the numbers in `(a, b]`, those not held are the rest. -/
theorem length_numbersGone (r : InMemoryStore) (a b : ℕ) : (r.numbersGone a b).length =
    b - a - ((r.late.above a).filter fun p => decide (p.1 ≤ b)).length := by
  have hkeys : (List.range' (a + 1) (b - a)).filter (fun n => (r.late.get? n).isSome) =
      ((r.late.above a).filter fun p => decide (p.1 ≤ b)).map Prod.fst := by
    refine Asc.ext id ((List.pairwise_lt_range' _ (by omega)).sublist List.filter_sublist)
      ((r.late.asc_above a).filter _).map_keys fun n => ?_
    rw [List.mem_filter, List.mem_range'_1, List.mem_map]
    constructor
    · rintro ⟨hrange, hsome⟩
      obtain ⟨s, hs⟩ := Option.isSome_iff_exists.mp hsome
      refine ⟨(n, s), List.mem_filter.mpr ⟨OrdMap.mem_above.mpr ⟨hs, by omega⟩, ?_⟩, rfl⟩
      simp only [decide_eq_true_eq]
      omega
    · rintro ⟨⟨m, s⟩, hmem, rfl⟩
      obtain ⟨habove, hle⟩ := List.mem_filter.mp hmem
      obtain ⟨hget, hlt⟩ := OrdMap.mem_above.mp habove
      simp only [decide_eq_true_eq] at hle
      exact ⟨by simp only; omega, by simp [hget]⟩
  have hsplit := List.length_eq_length_filter_add (l := List.range' (a + 1) (b - a))
    (fun n => (r.late.get? n).isSome)
  rw [hkeys, List.length_range', List.length_map] at hsplit
  have hgone : (r.numbersGone a b).length =
      ((List.range' (a + 1) (b - a)).filter fun n => !(r.late.get? n).isSome).length := by
    simp [numbersGone]
  omega

/-- The numbers up to the `i`-th of an ascending list are `i`. -/
theorem length_filter_le_of_mem_zipIdx {l : List (ℕ × ℕ)} (h : Asc Prod.fst l) {n s i : ℕ}
    (hmem : ((n, s), i) ∈ l.zipIdx 1) : (l.filter fun p => decide (p.1 ≤ n)).length = i := by
  obtain ⟨hi, hlt, hget⟩ := List.mem_zipIdx hmem
  obtain ⟨k, rfl⟩ : ∃ k, i = 1 + k := ⟨i - 1, by omega⟩
  have hk : l[k]? = some (n, s) := by
    rw [List.getElem?_eq_getElem (by omega), hget]
    simp
  have htake : l.take (1 + k) = l.take k ++ [(n, s)] := by
    rw [Nat.add_comm, List.take_add_one, hk]
    rfl
  have hin : (n, s) ∈ l.take (1 + k) := by simp [htake]
  have hall : (l.take (1 + k)).filter (fun p => decide (p.1 ≤ n)) = l.take (1 + k) := by
    have hpw : Asc Prod.fst (l.take k ++ [(n, s)]) := htake ▸ h.sublist (List.take_sublist _ _)
    rw [List.filter_eq_self, htake]
    intro p hp
    simp only [decide_eq_true_eq]
    rcases List.mem_append.mp hp with hp | hp
    · exact ((asc_append.mp hpw).2.2 p hp (n, s) (by simp)).le
    · rw [List.mem_singleton.mp hp]
  have hnone : (l.drop (1 + k)).filter (fun p => decide (p.1 ≤ n)) = [] := by
    rw [List.filter_eq_nil_iff]
    intro p hp
    have := h.take_lt_drop (1 + k) _ hin p hp
    simp only [decide_eq_true_eq]
    omega
  conv_lhs => rw [← List.take_append_drop (1 + k) l]
  rw [List.filter_append, hall, hnone, List.append_nil, List.length_take]
  omega

/-- **What a commit reports lost** is the numbers it passes whose record was
not held when the read ran. -/
theorem WF.lateLost_advanceFor {r : InMemoryStore} (h : r.WF) (E : TextEnv) (count : ℕ)
    (filter : Option ParsedFilter) (pos : CursorPos) (k : ℕ) :
    ((cursorRead E r count filter pos).advanceFor k).lateLost =
      some (r.numbersGone pos.lateMark ((cursorRead E r count filter pos).posFor k).lateMark).length := by
  by_cases hall : PassesLate E r count filter pos k
  · rw [(commit_all h.late hall).2, advanceFor_all h.late hall, length_numbersGone]
    -- every number in use was handed out, so all held ones above the mark are passed
    have hfilter : (r.late.above pos.lateMark).filter (fun p => decide (p.1 ≤ max r.lateCounter pos.lateMark)) =
        r.late.above pos.lateMark := by
      rw [List.filter_eq_self]
      rintro ⟨n, s⟩ hp
      have := (h.late.handed n s (OrdMap.mem_above.mp hp).1).2
      simp only [decide_eq_true_eq]
      omega
    rw [hfilter]
  · rw [(commit_part h.late hall).2, advanceFor_part h.late hall]
    unfold markAfter
    cases hlast : (((lateCandidates E r filter pos).take (min k count)).filterMap Prod.snd).getLast? with
    | none => simp [numbersGone]
    | some t =>
      obtain ⟨p, hp, ht⟩ := List.mem_filterMap.mp (List.mem_of_getLast? hlast)
      obtain ⟨n, s, i, e, hmem, -, -, -, -, rfl⟩ := mem_lateCandidates.mp (List.mem_of_mem_take hp)
      obtain rfl := Option.some.inj ht
      simp only
      rw [length_numbersGone, length_filter_le_of_mem_zipIdx (r.late.asc_above _) hmem]

end InMemoryStore
end Logmon
