/-
# What the ring's indexes say, and what leaving does

The trace index lists, for each trace, the held seqs of that trace and no
empty list (`Indexes`): kept by a push, a merge and a leave. Records leave one
at a time (`leave`); `leaveAll` is a run of leaves, and the eviction loop and
the overflow drop of `merge_locked` are both such runs.

Key definitions: `traceSeqs`, `Indexes`, `leaveAll`, `lostAfter`.
Key theorems: `Indexes.mergeTraces`, `holds_iff`, `record?_eq_some`,
`evictExcess_eq`, `dropMerged_eq`, `leaveAll_indexes`.
-/
import Logmon.Store.Memory

namespace Logmon

open Lib

/-- The seqs of a trace among `es`, in order. -/
def traceSeqs (es : List LogEntry) (t : ℕ) : List ℕ :=
  (es.filter fun e => e.traceId = some t).map LogEntry.seq

/-- The index lists, for each trace, exactly its seqs among `es`, and no
trace without one. -/
def Indexes (idx : OrdMap (List ℕ)) (es : List LogEntry) : Prop :=
  ∀ t, idx.get? t = if traceSeqs es t = [] then none else some (traceSeqs es t)

theorem indexes_nil : Indexes ∅ [] := fun t => by simp [traceSeqs]

theorem traceSeqs_cons (e : LogEntry) (es : List LogEntry) (t : ℕ) : traceSeqs (e :: es) t =
    if e.traceId = some t then e.seq :: traceSeqs es t else traceSeqs es t := by
  unfold traceSeqs
  by_cases h : e.traceId = some t <;> simp [h]

theorem traceSeqs_append (es fs : List LogEntry) (t : ℕ) :
    traceSeqs (es ++ fs) t = traceSeqs es t ++ traceSeqs fs t := by
  simp [traceSeqs]

theorem mem_traceSeqs {es : List LogEntry} {t s : ℕ} :
    s ∈ traceSeqs es t ↔ ∃ e ∈ es, e.traceId = some t ∧ e.seq = s := by
  simp [traceSeqs, and_assoc]

theorem asc_traceSeqs {es : List LogEntry} (h : Asc LogEntry.seq es) (t : ℕ) : Asc id (traceSeqs es t) :=
  (h.filter _).map_keys

theorem Indexes.getD {idx : OrdMap (List ℕ)} {es : List LogEntry} (h : Indexes idx es) (t : ℕ) :
    (idx.get? t).getD [] = traceSeqs es t := by
  rw [h t]
  split_ifs with he
  · exact he.symm
  · rfl

/-- The lowest record leaves the index. -/
theorem Indexes.unindexTrace {idx : OrdMap (List ℕ)} {e : LogEntry} {es : List LogEntry}
    (h : Indexes idx (e :: es)) : Indexes (InMemoryStore.unindexTrace idx e.traceId e.seq) es := by
  intro t
  have ht := h t
  rw [traceSeqs_cons] at ht
  unfold InMemoryStore.unindexTrace
  cases hid : e.traceId with
  | none =>
    simp only [hid, reduceCtorEq, ↓reduceIte] at ht
    exact ht
  | some t' =>
    have ht' := h t'
    rw [traceSeqs_cons, hid, if_pos rfl, if_neg (List.cons_ne_nil _ _)] at ht'
    simp only [ht', List.erase_cons_head]
    by_cases htt : t = t'
    · subst htt
      split_ifs with he
      · simp [OrdMap.get?_erase]
      · simp [OrdMap.get?_insert]
    · have hne : ¬ e.traceId = some t := by rw [hid]; simpa using fun h => htt h.symm
      rw [if_neg hne] at ht
      split_ifs with he <;> simp [OrdMap.get?_erase, OrdMap.get?_insert, *]

theorem Indexes.unique {m n : OrdMap (List ℕ)} {es : List LogEntry} (hm : Indexes m es) (hn : Indexes n es) :
    m = n :=
  OrdMap.ext_get? fun t => by rw [hm t, hn t]

/-- The newest record joins the index. -/
theorem Indexes.push {idx : OrdMap (List ℕ)} {es : List LogEntry} (h : Indexes idx es) (e : LogEntry) :
    Indexes (match e.traceId with
      | none => idx
      | some t => idx.insert t ((idx.get? t).getD [] ++ [e.seq])) (es ++ [e]) := by
  intro t
  rw [traceSeqs_append, traceSeqs_cons]
  cases hid : e.traceId with
  | none => simpa [traceSeqs] using h t
  | some t' =>
    simp only [OrdMap.get?_insert, h.getD]
    by_cases htt : t = t'
    · subst htt; simp [traceSeqs]
    · have : ¬ t' = t := fun h => htt h.symm
      simpa [htt, this, traceSeqs] using h t

/-- The batch's own index. -/
theorem indexes_byTrace (b : List LogEntry) : Indexes (InMemoryStore.byTrace b) b := by
  have key : ∀ (b done : List LogEntry) (m : OrdMap (List ℕ)), Indexes m done →
      Indexes (b.foldl (fun m e => match e.traceId with
        | none => m
        | some t => m.insert t ((m.get? t).getD [] ++ [e.seq])) m) (done ++ b) := by
    intro b
    induction b with
    | nil => intro done m h; simpa using h
    | cons e b ih =>
      intro done m h
      simpa using ih (done ++ [e]) _ (h.push e)
  exact key b [] ∅ indexes_nil

theorem mergeAscending_eq {l a : List ℕ} (hl : Asc id l) (ha : Asc id a) :
    InMemoryStore.mergeAscending l a = mergeBy id l a := by
  unfold InMemoryStore.mergeAscending
  split
  · rename_i h
    obtain rfl : a = [] := by simpa using h
    simp
  · rename_i h
    obtain rfl : l = [] := by simpa using h
    simp
  · rename_i first last hf hlast
    split_ifs with hlt
    · -- everything in `l` is below everything in `a`
      have hsep : ∀ x ∈ l, ∀ y ∈ a, x < y := by
        intro x hx y hy
        have hxl : x ≤ last := by
          obtain ⟨l', rfl⟩ := List.getLast?_eq_some_iff.mp hlast
          rcases List.mem_append.mp hx with hx | hx
          · exact ((asc_append.mp hl).2.2 x hx last (by simp)).le
          · exact (List.mem_singleton.mp hx).le
        have hya : first ≤ y := by
          cases a with
          | nil => simp at hf
          | cons z a =>
            obtain rfl : z = first := by simpa using hf
            rcases List.mem_cons.mp hy with rfl | hy
            · exact le_rfl
            · exact ((asc_cons.mp ha).1 y hy).le
        omega
      refine Asc.ext id (asc_append.mpr ⟨hl, ha, hsep⟩)
        (asc_mergeBy hl ha fun x hx y hy => (hsep x hx y hy).ne) fun s => ?_
      rw [List.mem_append, mem_mergeBy]
    · rfl

theorem get?_mergeTraces (idx add : OrdMap (List ℕ)) (t : ℕ) :
    (InMemoryStore.mergeTraces idx add).get? t = match add.get? t with
      | none => idx.get? t
      | some seqs => some (InMemoryStore.mergeAscending ((idx.get? t).getD []) seqs) := by
  -- a key of `add` is met once, so the fold reads `idx` itself there
  have key : ∀ (l : List (ℕ × List ℕ)) (m : OrdMap (List ℕ)), Asc Prod.fst l →
      (l.foldl (fun idx p => idx.insert p.1 (InMemoryStore.mergeAscending ((idx.get? p.1).getD []) p.2)) m).get? t
        = match (l.find? fun p => p.1 = t).map Prod.snd with
          | none => m.get? t
          | some seqs => some (InMemoryStore.mergeAscending ((m.get? t).getD []) seqs) := by
    intro l
    induction l with
    | nil => intro m _; rfl
    | cons p l ih =>
      intro m h
      obtain ⟨h1, h2⟩ := asc_cons.mp h
      rw [List.foldl_cons, ih _ h2]
      by_cases hp : p.1 = t
      · have hnone : l.find? (fun p => p.1 = t) = none := by
          rw [List.find?_eq_none]
          intro q hq
          have := h1 q hq
          simp only [decide_eq_true_eq]
          omega
        simp [hnone, hp, OrdMap.get?_insert]
      · have ht : ¬ t = p.1 := fun h => hp h.symm
        simp [hp, OrdMap.get?_insert, ht]
  exact key add.entries idx add.asc

/-- The index takes the batch. -/
theorem Indexes.mergeTraces {idx : OrdMap (List ℕ)} {es b : List LogEntry} (h : Indexes idx es)
    (hes : Asc LogEntry.seq es) (hb : Asc LogEntry.seq b)
    (hd : ∀ x ∈ es, ∀ y ∈ b, x.seq ≠ y.seq) :
    Indexes (InMemoryStore.mergeTraces idx (InMemoryStore.byTrace b)) (mergeBy LogEntry.seq es b) := by
  intro t
  have hmem : mergeBy id (traceSeqs es t) (traceSeqs b t) = traceSeqs (mergeBy LogEntry.seq es b) t := by
    refine Asc.ext id (asc_mergeBy (asc_traceSeqs hes t) (asc_traceSeqs hb t) ?_)
      (asc_traceSeqs (asc_mergeBy hes hb hd) t) fun s => ?_
    · intro x hx y hy
      obtain ⟨e, he, -, rfl⟩ := mem_traceSeqs.mp hx
      obtain ⟨f, hf, -, rfl⟩ := mem_traceSeqs.mp hy
      exact hd e he f hf
    · simp only [mem_mergeBy, mem_traceSeqs]
      constructor
      · rintro (⟨e, he, h⟩ | ⟨e, he, h⟩)
        · exact ⟨e, Or.inl he, h⟩
        · exact ⟨e, Or.inr he, h⟩
      · rintro ⟨e, he | he, h⟩
        · exact Or.inl ⟨e, he, h⟩
        · exact Or.inr ⟨e, he, h⟩
  rw [get?_mergeTraces, indexes_byTrace b t, ← hmem]
  by_cases hbt : traceSeqs b t = []
  · simpa [hbt] using h t
  · have hne : mergeBy id (traceSeqs es t) (traceSeqs b t) ≠ [] := by
      intro h0
      have hlen : (mergeBy id (traceSeqs es t) (traceSeqs b t)).length = _ := length_mergeBy _ _
      rw [h0, List.length_nil] at hlen
      exact hbt (List.length_eq_zero_iff.mp (by omega))
    simp only [hbt, ↓reduceIte, hne, h.getD,
      mergeAscending_eq (asc_traceSeqs hes t) (asc_traceSeqs hb t)]

namespace InMemoryStore

/-! ### Finding a record -/

theorem record?_eq_find? (r : InMemoryStore) (s : ℕ) : r.record? s = r.entries.find? fun e => e.seq = s := by
  unfold record? position
  rw [List.findIdx?_eq_map_findFinIdx?_val, List.find?_eq_map_findFinIdx?_getElem]
  cases h : r.entries.findFinIdx? fun e => decide (e.seq = s) <;> simp

/-- The record found under a seq is the held one. -/
theorem record?_eq_some {r : InMemoryStore} (h : Asc LogEntry.seq r.entries) {s : ℕ} {e : LogEntry} :
    r.record? s = some e ↔ e ∈ r.entries ∧ e.seq = s := by
  rw [record?_eq_find?]
  constructor
  · intro hf
    exact ⟨List.mem_of_find?_eq_some hf, by simpa using List.find?_some hf⟩
  · rintro ⟨he, rfl⟩
    cases hf : r.entries.find? fun x => decide (x.seq = e.seq) with
    | none => exact absurd (decide_eq_true rfl) (List.find?_eq_none.mp hf e he)
    | some x =>
      rw [h.eq_of_key (List.mem_of_find?_eq_some hf) he (by simpa using List.find?_some hf)]

/-- The newest record is above every other. -/
theorem le_newest {es : List LogEntry} (h : Asc LogEntry.seq es) {newest : LogEntry}
    (hn : es.getLast? = some newest) : ∀ e ∈ es, e.seq ≤ newest.seq := by
  obtain ⟨es', rfl⟩ := List.getLast?_eq_some_iff.mp hn
  intro e he
  rcases List.mem_append.mp he with he | he
  · exact ((asc_append.mp h).2.2 e he newest (by simp)).le
  · rw [List.mem_singleton.mp he]

theorem holds_iff {r : InMemoryStore} (h : Asc LogEntry.seq r.entries) (s : ℕ) :
    r.holds s = true ↔ ∃ e ∈ r.entries, e.seq = s := by
  unfold holds
  cases hn : r.entries.getLast? with
  | none =>
    have : r.entries = [] := by simpa using hn
    simp [this]
  | some newest =>
    have hle := le_newest h hn
    have hmem : newest ∈ r.entries := List.mem_of_getLast? hn
    simp only
    split_ifs with h1 h2
    · simp only [false_iff, not_exists, not_and]
      intro e he hs
      have := hle e he
      omega
    · simp only [true_iff]
      exact ⟨newest, hmem, h2.symm⟩
    · simp [position]

/-! ### Records leaving -/

/-- The records of `gone` leave, in order. -/
def leaveAll (r : InMemoryStore) (gone : List LogEntry) : InMemoryStore := gone.foldl leave r

/-- The same ring with other held records. -/
def withEntries (r : InMemoryStore) (es : List LogEntry) : InMemoryStore := { r with entries := es }

@[simp] theorem leave_entries (r : InMemoryStore) (e : LogEntry) : (r.leave e).entries = r.entries := by
  simp only [leave, unindex, forgetLate, loseThrough]
  split <;> rfl

@[simp] theorem leave_maxCapacity (r : InMemoryStore) (e : LogEntry) :
    (r.leave e).maxCapacity = r.maxCapacity := by
  simp only [leave, unindex, forgetLate, loseThrough]
  split <;> rfl

@[simp] theorem leave_admitFrom (r : InMemoryStore) (e : LogEntry) :
    (r.leave e).admitFrom = r.admitFrom := by
  simp only [leave, unindex, forgetLate, loseThrough]
  split <;> rfl

@[simp] theorem leave_lateCounter (r : InMemoryStore) (e : LogEntry) :
    (r.leave e).lateCounter = r.lateCounter := by
  simp only [leave, unindex, forgetLate, loseThrough]
  split <;> rfl

@[simp] theorem leave_totalStored (r : InMemoryStore) (e : LogEntry) :
    (r.leave e).totalStored = r.totalStored := by
  simp only [leave, unindex, forgetLate, loseThrough]
  split <;> rfl

@[simp] theorem leave_totalReceived (r : InMemoryStore) (e : LogEntry) :
    (r.leave e).totalReceived = r.totalReceived := by
  simp only [leave, unindex, forgetLate, loseThrough]
  split <;> rfl

@[simp] theorem leave_lostBelow (r : InMemoryStore) (e : LogEntry) :
    (r.leave e).lostBelow = max r.lostBelow (satAdd e.seq 1) := by
  simp only [leave, unindex, forgetLate, loseThrough]
  split <;> rfl

@[simp] theorem leave_traceIndex (r : InMemoryStore) (e : LogEntry) :
    (r.leave e).traceIndex = unindexTrace r.traceIndex e.traceId e.seq := by
  simp only [leave, unindex, forgetLate, loseThrough]
  split <;> rfl

theorem leave_withEntries (r : InMemoryStore) (es : List LogEntry) (e : LogEntry) :
    (r.withEntries es).leave e = (r.leave e).withEntries es := by
  cases h : r.lateBySeq.get? e.seq <;> simp [leave, unindex, forgetLate, loseThrough, withEntries, h]

theorem leaveAll_withEntries (es : List LogEntry) : ∀ (gone : List LogEntry) (r : InMemoryStore),
    (r.withEntries es).leaveAll gone = (r.leaveAll gone).withEntries es
  | [], _ => rfl
  | e :: gone, r => by
    have := leaveAll_withEntries es gone (r.leave e)
    simpa [leaveAll, leave_withEntries] using this

theorem leaveAll_append (r : InMemoryStore) (g h : List LogEntry) :
    r.leaveAll (g ++ h) = (r.leaveAll g).leaveAll h := by
  simp [leaveAll]

/-- What leaving does not touch. -/
theorem leaveAll_frame : ∀ (gone : List LogEntry) (r : InMemoryStore),
    (r.leaveAll gone).entries = r.entries ∧ (r.leaveAll gone).maxCapacity = r.maxCapacity ∧
      (r.leaveAll gone).admitFrom = r.admitFrom ∧ (r.leaveAll gone).lateCounter = r.lateCounter ∧
      (r.leaveAll gone).totalStored = r.totalStored ∧ (r.leaveAll gone).totalReceived = r.totalReceived
  | [], _ => ⟨rfl, rfl, rfl, rfl, rfl, rfl⟩
  | e :: gone, r => by
    have := leaveAll_frame gone (r.leave e)
    simpa [leaveAll] using this

@[simp] theorem leaveAll_entries (r : InMemoryStore) (g : List LogEntry) :
    (r.leaveAll g).entries = r.entries := (leaveAll_frame g r).1

@[simp] theorem leaveAll_maxCapacity (r : InMemoryStore) (g : List LogEntry) :
    (r.leaveAll g).maxCapacity = r.maxCapacity := (leaveAll_frame g r).2.1

@[simp] theorem leaveAll_admitFrom (r : InMemoryStore) (g : List LogEntry) :
    (r.leaveAll g).admitFrom = r.admitFrom := (leaveAll_frame g r).2.2.1

@[simp] theorem leaveAll_lateCounter (r : InMemoryStore) (g : List LogEntry) :
    (r.leaveAll g).lateCounter = r.lateCounter := (leaveAll_frame g r).2.2.2.1

@[simp] theorem leaveAll_totalStored (r : InMemoryStore) (g : List LogEntry) :
    (r.leaveAll g).totalStored = r.totalStored := (leaveAll_frame g r).2.2.2.2.1

@[simp] theorem leaveAll_totalReceived (r : InMemoryStore) (g : List LogEntry) :
    (r.leaveAll g).totalReceived = r.totalReceived := (leaveAll_frame g r).2.2.2.2.2

/-- The floor after the records of `gone` left a ring with floor `floor`. -/
def lostAfter (floor : ℕ) (gone : List LogEntry) : ℕ :=
  gone.foldl (fun m e => max m (satAdd e.seq 1)) floor

theorem leaveAll_lostBelow : ∀ (gone : List LogEntry) (r : InMemoryStore),
    (r.leaveAll gone).lostBelow = lostAfter r.lostBelow gone
  | [], _ => rfl
  | e :: gone, r => by
    have := leaveAll_lostBelow gone (r.leave e)
    simpa [leaveAll, lostAfter] using this

/-- The index follows the lowest records out. -/
theorem leaveAll_indexes : ∀ {gone es : List LogEntry} {r : InMemoryStore},
    Indexes r.traceIndex (gone ++ es) → Indexes (r.leaveAll gone).traceIndex es
  | [], _, _, h => h
  | e :: gone, es, r, h => by
    have h' : Indexes (r.leave e).traceIndex (gone ++ es) := by
      rw [leave_traceIndex]
      exact h.unindexTrace
    exact leaveAll_indexes (r := r.leave e) h'

theorem lostAfter_le {floor b : ℕ} : ∀ {gone : List LogEntry}, floor ≤ b →
    (∀ e ∈ gone, satAdd e.seq 1 ≤ b) → lostAfter floor gone ≤ b
  | [], h, _ => h
  | e :: gone, h, hg => by
    unfold lostAfter
    rw [List.foldl_cons]
    exact lostAfter_le (max_le h (hg e List.mem_cons_self)) fun x hx => hg x (List.mem_cons_of_mem _ hx)

theorem le_lostAfter : ∀ (gone : List LogEntry) (floor : ℕ),
    floor ≤ lostAfter floor gone ∧ ∀ e ∈ gone, satAdd e.seq 1 ≤ lostAfter floor gone
  | [], _ => ⟨le_rfl, fun _ h => absurd h List.not_mem_nil⟩
  | e :: gone, floor => by
    obtain ⟨h1, h2⟩ := le_lostAfter gone (max floor (satAdd e.seq 1))
    refine ⟨le_trans (le_max_left _ _) h1, fun x hx => ?_⟩
    rcases List.mem_cons.mp hx with rfl | hx
    · exact le_trans (le_max_right _ _) h1
    · exact h2 x hx

/-- Ascending records leave the floor past the newest of them. -/
theorem lostAfter_eq_newest {es : List LogEntry} (h : Asc LogEntry.seq es) (floor : ℕ) :
    lostAfter floor es = match es.getLast? with
      | none => floor
      | some newest => max floor (satAdd newest.seq 1) := by
  cases hn : es.getLast? with
  | none =>
    have : es = [] := by simpa using hn
    rw [this]
    rfl
  | some newest =>
    obtain ⟨h1, h2⟩ := le_lostAfter es floor
    refine Nat.le_antisymm (lostAfter_le (le_max_left _ _) fun e he => ?_)
      (max_le h1 (h2 newest (List.mem_of_getLast? hn)))
    exact le_trans (satAdd_mono (le_newest h hn e he) 1) (le_max_right _ _)

/-- The eviction loop, in one piece: the lowest `n` held records leave. -/
theorem evictExcess_eq : ∀ (n : ℕ) (r : InMemoryStore), evictExcess n r =
    ((r.withEntries (r.entries.drop n)).leaveAll (r.entries.take n), n - r.entries.length)
  | 0, r => by simp [evictExcess, leaveAll, withEntries]
  | n + 1, r => by
    unfold evictExcess
    cases he : r.entries with
    | nil =>
      have hr : r.withEntries [] = r := by rw [← he]; rfl
      simp [leaveAll, hr]
    | cons e rest =>
      have hf : r.evictFront = (r.withEntries rest).leave e := by simp [evictFront, he, withEntries]
      have hent : r.evictFront.entries = rest := by rw [hf]; simp [withEntries]
      simp only [List.isEmpty_cons, Bool.false_eq_true, ↓reduceIte, List.drop_succ_cons,
        List.take_succ_cons, List.length_cons, Nat.add_sub_add_right]
      rw [evictExcess_eq n, hent, hf, leaveAll_withEntries, leaveAll_withEntries, leave_withEntries,
        leaveAll_withEntries]
      rfl

theorem dropMerged_eq (r : InMemoryStore) (dropped : List LogEntry) :
    r.dropMerged dropped = (r.leaveAll dropped, dropped.getLast?.map LogEntry.seq) := by
  have key : ∀ (l : List LogEntry) (r : InMemoryStore) (o : Option ℕ),
      l.foldl (fun s e => (s.1.leave e, some e.seq)) (r, o) =
        (r.leaveAll l, if l = [] then o else l.getLast?.map LogEntry.seq) := by
    intro l
    induction l with
    | nil => intro r o; rfl
    | cons e l ih =>
      intro r o
      rw [List.foldl_cons, ih]
      cases l with
      | nil => rfl
      | cons f l => simp [leaveAll, List.getLast?_cons_cons]
  unfold dropMerged
  rw [key]
  cases dropped <;> simp

end InMemoryStore
end Logmon
