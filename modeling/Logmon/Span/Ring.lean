/-
# The span ring and its trace index

`span/store.rs`: the ring takes a seq from the domain's counter, which log
records share, and keeps the newest spans; beside them an index of each
trace's held seqs, and the floor below which spans were held and are gone.

A run remembers the spans stored before and since the last clear. What the
ring holds is the newest of the latter (`SpanRun.Inv`), while the `u64`
counter does not wrap.

Key definitions: `SpanRing`, `SpanRing.insert`, `SpanRing.clear`, `SpanRun`,
`SpanRun.Inv`.
Key theorems: `SpanRing.evict_cases`, `SpanRun.Inv.insert`,
`SpanRun.inv_run`.
-/
import Logmon.Lib.Index
import Logmon.Span.Store

namespace Logmon

open Lib

/-- `SeqCounter::next` after `counter` was given. -/
def nextSeqOf (counter : ℕ) : ℕ := (counter + 1) % 2 ^ 64

theorem nextSeqOf_le (counter : ℕ) : nextSeqOf counter ≤ u64Max := by
  have : nextSeqOf counter < 2 ^ 64 := Nat.mod_lt _ (by decide)
  unfold u64Max
  omega

theorem nextSeqOf_eq {counter : ℕ} (h : counter < u64Max) : nextSeqOf counter = counter + 1 := by
  unfold u64Max at h
  exact Nat.mod_eq_of_lt (by omega)

/-- The ring, its index, its floor, and the counter it shares. -/
structure SpanRing where
  buffer : List SpanEntry
  /-- Each trace's held seqs. -/
  traceIndex : FMap ℕ (List ℕ)
  capacity : ℕ
  lostBelow : ℕ
  counter : ℕ

namespace SpanRing

/-- A ring over a counter that has given `initial`. -/
def new (capacity initial : ℕ) : SpanRing := ⟨[], ∅, capacity, 0, initial⟩

/-- The span under the next seq. -/
def stamp (r : SpanRing) (span : SpanEntry) : SpanEntry :=
  { span with seq := nextSeqOf r.counter, seq_le := nextSeqOf_le r.counter }

/-- A full ring gives up its first span. -/
def evict (r : SpanRing) : SpanRing :=
  if r.buffer.length ≥ r.capacity then
    match r.buffer with
    | [] => r
    | evicted :: rest =>
      { r with
        buffer := rest
        lostBelow := max r.lostBelow (satAdd evicted.seq 1)
        traceIndex := editAt r.traceIndex evicted.traceId fun seqs => seqs.filter (· ≠ evicted.seq) }
  else r

/-- Store a span, and the seq it is stored under. -/
def insert (r : SpanRing) (span : SpanEntry) : SpanRing × ℕ :=
  let span := r.stamp span
  let r := { r with counter := span.seq }
  if r.capacity = 0 then ({ r with lostBelow := max r.lostBelow (satAdd span.seq 1) }, span.seq)
  else
    let r := r.evict
    ({ r with
        traceIndex := r.traceIndex.insert span.traceId ((r.traceIndex.get? span.traceId).getD [] ++ [span.seq])
        buffer := r.buffer ++ [span] }, span.seq)

/-- Dispose of every span, and how many there were. -/
def clear (r : SpanRing) : SpanRing × ℕ :=
  ({ r with
      lostBelow :=
        match r.buffer.getLast? with
        | some newest => max r.lostBelow (satAdd newest.seq 1)
        | none => r.lostBelow
      buffer := []
      traceIndex := ∅ }, r.buffer.length)

/-- Other writers take `n` seqs. -/
def advance (r : SpanRing) (n : ℕ) : SpanRing := { r with counter := (r.counter + n) % 2 ^ 64 }

/-- What an eviction can do: nothing to a ring with room, or take the first
span of a full one. -/
theorem evict_cases (r : SpanRing) (hcap : 0 < r.capacity) :
    (r.buffer.length < r.capacity ∧ r.evict = r) ∨
    ∃ evicted rest, r.buffer = evicted :: rest ∧ r.capacity ≤ r.buffer.length ∧
      r.evict = { r with
        buffer := rest
        lostBelow := max r.lostBelow (satAdd evicted.seq 1)
        traceIndex := editAt r.traceIndex evicted.traceId fun seqs => seqs.filter (· ≠ evicted.seq) } := by
  by_cases hfull : r.buffer.length ≥ r.capacity
  · right
    cases hb : r.buffer with
    | nil =>
      rw [hb] at hfull
      simp at hfull
      omega
    | cons evicted rest =>
      refine ⟨evicted, rest, rfl, by rw [hb] at hfull; exact hfull, ?_⟩
      unfold evict
      rw [if_pos hfull, hb]
  · left
    unfold evict
    rw [if_neg hfull]
    exact ⟨Nat.lt_of_not_le hfull, rfl⟩

/-- The ring as cases read it, when its seqs ascend. -/
def toStore (r : SpanRing) (h : Asc SpanEntry.seq r.buffer) : SpanStore := ⟨r.buffer, r.capacity, r.lostBelow, h⟩

end SpanRing

/-! ### Runs -/

/-- A call of a writer of the ring, or other writers taking seqs. -/
inductive SpanAct
  | insert (span : SpanEntry)
  | advance (n : ℕ)
  | clear

/-- How many seqs the call takes. -/
def SpanAct.seqs : SpanAct → ℕ
  | .insert _ => 1
  | .advance n => n
  | .clear => 0

/-- A run: the ring, and the spans stored before and since the last clear. -/
structure SpanRun where
  ring : SpanRing
  earlier : List SpanEntry
  since : List SpanEntry

namespace SpanRun

def start (capacity initial : ℕ) : SpanRun := ⟨.new capacity initial, [], []⟩

def step (s : SpanRun) : SpanAct → SpanRun
  | .insert span => { s with ring := (s.ring.insert span).1, since := s.since ++ [s.ring.stamp span] }
  | .advance n => { s with ring := s.ring.advance n }
  | .clear => { ring := s.ring.clear.1, earlier := s.earlier ++ s.since, since := [] }

def run (s : SpanRun) (acts : List SpanAct) : SpanRun := acts.foldl step s

/-- Every span stored, in order. -/
def stored (s : SpanRun) : List SpanEntry := s.earlier ++ s.since

/-- How many spans since the last clear the ring has no room for. -/
def surplus (s : SpanRun) : ℕ := s.since.length - s.ring.capacity

/-- The spans stored that left. -/
def gone (s : SpanRun) : List SpanEntry := s.earlier ++ s.since.take s.surplus

/-- The seqs a trace has in a list of spans. -/
def seqsOf (l : List SpanEntry) (t : ℕ) : List ℕ := (l.filter fun x => x.traceId = t).map SpanEntry.seq

/-- The ring holds the newest spans since the last clear, the floor is past the
last span gone, and the index lists the held seqs. -/
structure Fits (s : SpanRun) : Prop where
  held : s.ring.buffer = s.since.drop s.surplus
  floor : s.ring.lostBelow = (s.gone.getLast?.map fun x => satAdd x.seq 1).getD 0
  index : Indexes s.ring.traceIndex (seqsOf s.ring.buffer)

/-- The ring fits what was stored, under ascending seqs the counter has
given. -/
structure Inv (s : SpanRun) : Prop extends Fits s where
  asc : Asc SpanEntry.seq s.stored
  below : ∀ x ∈ s.stored, x.seq ≤ s.ring.counter

theorem inv_start (capacity initial : ℕ) : (start capacity initial).Inv where
  asc := Asc.nil
  below _ h := nomatch h
  held := by simp [start, SpanRing.new]
  floor := by simp [start, SpanRing.new, gone]
  index := indexes_empty

variable {s : SpanRun}

/-- What is stored is what is gone and what is held. -/
theorem Inv.stored_eq (h : s.Inv) : s.stored = s.gone ++ s.ring.buffer := by
  rw [h.held, gone, stored, List.append_assoc, List.take_append_drop]

theorem Inv.asc_buffer (h : s.Inv) : Asc SpanEntry.seq s.ring.buffer := by
  have := h.asc
  rw [h.stored_eq] at this
  exact (asc_append.mp this).2.1

/-- The floor rises to one past a span above all that are gone. -/
theorem Inv.max_floor (h : s.Inv) {x : SpanEntry} (hx : ∀ y ∈ s.gone, y.seq < x.seq) :
    max s.ring.lostBelow (satAdd x.seq 1) = satAdd x.seq 1 := by
  rw [h.floor]
  cases hl : s.gone.getLast? with
  | none => exact Nat.max_eq_right (Nat.zero_le _)
  | some y =>
    have hy := hx y (List.mem_of_getLast? hl)
    exact Nat.max_eq_right (satAdd_mono (Nat.le_of_lt hy) 1)

/-- The next span is above every span stored. -/
theorem Inv.lt_stamp (h : s.Inv) (hc : s.ring.counter < u64Max) (span : SpanEntry) :
    ∀ x ∈ s.stored, x.seq < (s.ring.stamp span).seq := by
  intro x hx
  show x.seq < nextSeqOf s.ring.counter
  rw [nextSeqOf_eq hc]
  exact Nat.lt_succ_of_le (h.below x hx)

theorem seqsOf_append (l m : List SpanEntry) (t : ℕ) : seqsOf (l ++ m) t = seqsOf l t ++ seqsOf m t := by
  rw [seqsOf, List.filter_append, List.map_append]
  rfl

/-- Filing the next span's seq. -/
theorem indexes_push {m : FMap ℕ (List ℕ)} {l : List SpanEntry} (h : Indexes m (seqsOf l)) (x : SpanEntry) :
    Indexes (m.insert x.traceId ((m.get? x.traceId).getD [] ++ [x.seq])) (seqsOf (l ++ [x])) := by
  have hpush := h.push x.traceId x.seq
  have hf : Function.update (seqsOf l) x.traceId (seqsOf l x.traceId ++ [x.seq]) = seqsOf (l ++ [x]) := by
    funext t
    rw [seqsOf_append]
    by_cases ht : t = x.traceId
    · rw [ht, Function.update_self]
      simp [seqsOf]
    · have hne : ¬ x.traceId = t := fun he => ht he.symm
      rw [Function.update_of_ne ht]
      simp [seqsOf, hne]
  rwa [hf] at hpush

/-- Taking an evicted span's seq out. -/
theorem indexes_evict {m : FMap ℕ (List ℕ)} {x : SpanEntry} {l : List SpanEntry} (h : Indexes m (seqsOf (x :: l)))
    (hasc : Asc SpanEntry.seq (x :: l)) :
    Indexes (editAt m x.traceId fun seqs => seqs.filter (· ≠ x.seq)) (seqsOf l) := by
  have hedit := h.editAt x.traceId (g := fun seqs => seqs.filter (· ≠ x.seq)) rfl
  have hf : Function.update (seqsOf (x :: l)) x.traceId ((seqsOf (x :: l) x.traceId).filter (· ≠ x.seq)) = seqsOf l := by
    funext t
    by_cases ht : t = x.traceId
    · have hkeep : (seqsOf l x.traceId).filter (· ≠ x.seq) = seqsOf l x.traceId := by
        refine List.filter_eq_self.mpr fun q hq => ?_
        obtain ⟨y, hy, rfl⟩ := List.mem_map.mp hq
        have := (asc_cons.mp hasc).1 y (List.mem_filter.mp hy).1
        exact decide_eq_true (Nat.ne_of_gt this)
      rw [ht, Function.update_self, ← hkeep]
      simp [seqsOf]
    · have hne : ¬ x.traceId = t := fun he => ht he.symm
      rw [Function.update_of_ne ht]
      simp [seqsOf, hne]
  rwa [hf] at hedit

theorem Inv.mem_stored_of_gone (h : s.Inv) {x : SpanEntry} (hx : x ∈ s.gone) : x ∈ s.stored := by
  rw [h.stored_eq]
  exact List.mem_append_left _ hx

theorem counter_insert (s : SpanRun) (span : SpanEntry) :
    (s.step (.insert span)).ring.counter = (s.ring.stamp span).seq := by
  show (s.ring.insert span).1.counter = _
  unfold SpanRing.insert SpanRing.evict
  dsimp only
  split
  · rfl
  · split
    · split <;> rfl
    · rfl

theorem Inv.length_buffer (h : s.Inv) : s.ring.buffer.length = s.since.length - s.surplus := by
  rw [h.held, List.length_drop]

theorem Inv.lt_of_gone (h : s.Inv) {x y : SpanEntry} (hx : x ∈ s.gone) (hy : y ∈ s.ring.buffer) : x.seq < y.seq := by
  have hsplit := h.asc
  rw [h.stored_eq] at hsplit
  exact (asc_append.mp hsplit).2.2 x hx y hy

/-- A ring of no spans stores a span and loses it at once. -/
theorem Inv.fits_insert_nowhere (h : s.Inv) (hc : s.ring.counter < u64Max) (span : SpanEntry)
    (hcap : s.ring.capacity = 0) : (s.step (.insert span)).Fits := by
  have hstep : s.step (.insert span) =
      { s with
        ring := { s.ring with
          counter := (s.ring.stamp span).seq
          lostBelow := max s.ring.lostBelow (satAdd (s.ring.stamp span).seq 1) }
        since := s.since ++ [s.ring.stamp span] } := by
    simp [step, SpanRing.insert, hcap]
  have hempty : s.ring.buffer = [] := by
    rw [h.held, surplus, hcap, Nat.sub_zero, List.drop_length]
  refine ⟨?_, ?_, ?_⟩
  · rw [hstep]
    simp [surplus, hcap, hempty]
  · rw [hstep]
    simp only [gone, surplus, hcap, Nat.sub_zero, List.take_length]
    rw [← List.append_assoc, List.getLast?_append]
    exact h.max_floor fun y hy => h.lt_stamp hc span y (h.mem_stored_of_gone hy)
  · rw [hstep]
    exact h.index

/-- A ring with room loses nothing. -/
theorem Inv.fits_insert_room (h : s.Inv) (span : SpanEntry) (hcap : s.ring.capacity ≠ 0)
    (hroom : s.ring.buffer.length < s.ring.capacity)
    (hevict : SpanRing.evict { s.ring with counter := (s.ring.stamp span).seq } =
      { s.ring with counter := (s.ring.stamp span).seq }) : (s.step (.insert span)).Fits := by
  have hstep : s.step (.insert span) =
      { s with
        ring := { s.ring with
          counter := (s.ring.stamp span).seq
          traceIndex := s.ring.traceIndex.insert (s.ring.stamp span).traceId
            ((s.ring.traceIndex.get? (s.ring.stamp span).traceId).getD [] ++ [(s.ring.stamp span).seq])
          buffer := s.ring.buffer ++ [s.ring.stamp span] }
        since := s.since ++ [s.ring.stamp span] } := by
    simp only [step, SpanRing.insert, if_neg hcap, hevict]
  have hlength := h.length_buffer
  have hnone : s.surplus = 0 := by
    unfold surplus at hlength ⊢
    omega
  have hnone' : (s.since ++ [s.ring.stamp span]).length - s.ring.capacity = 0 := by
    rw [List.length_append, List.length_singleton]
    omega
  refine ⟨?_, ?_, ?_⟩
  · rw [hstep]
    simp only [surplus, hnone', List.drop_zero]
    rw [h.held, hnone, List.drop_zero]
  · rw [hstep]
    simp only [gone, surplus, hnone', List.take_zero]
    have hfloor := h.floor
    rwa [gone, hnone, List.take_zero] at hfloor
  · rw [hstep]
    exact indexes_push h.index _

/-- A full ring loses its first span. -/
theorem Inv.fits_insert_full (h : s.Inv) (span : SpanEntry) (hcap : s.ring.capacity ≠ 0) {evicted : SpanEntry}
    {rest : List SpanEntry} (hb : s.ring.buffer = evicted :: rest) (hfull : s.ring.capacity ≤ s.ring.buffer.length)
    (hevict : SpanRing.evict { s.ring with counter := (s.ring.stamp span).seq } =
      { s.ring with
        counter := (s.ring.stamp span).seq
        buffer := rest
        lostBelow := max s.ring.lostBelow (satAdd evicted.seq 1)
        traceIndex := editAt s.ring.traceIndex evicted.traceId fun seqs => seqs.filter (· ≠ evicted.seq) }) :
    (s.step (.insert span)).Fits := by
  have hstep : s.step (.insert span) =
      { s with
        ring := { s.ring with
          counter := (s.ring.stamp span).seq
          lostBelow := max s.ring.lostBelow (satAdd evicted.seq 1)
          traceIndex := (editAt s.ring.traceIndex evicted.traceId fun seqs => seqs.filter (· ≠ evicted.seq)).insert
            (s.ring.stamp span).traceId
            (((editAt s.ring.traceIndex evicted.traceId fun seqs => seqs.filter (· ≠ evicted.seq)).get?
              (s.ring.stamp span).traceId).getD [] ++ [(s.ring.stamp span).seq])
          buffer := rest ++ [s.ring.stamp span] }
        since := s.since ++ [s.ring.stamp span] } := by
    simp only [step, SpanRing.insert, if_neg hcap, hevict]
  have hdrop : s.since.drop s.surplus = evicted :: rest := by rw [← h.held, hb]
  have hlength := h.length_buffer
  have hle : s.surplus + 1 ≤ s.since.length := by
    rw [hb] at hlength
    simp only [List.length_cons] at hlength
    omega
  have hmore : (s.since ++ [s.ring.stamp span]).length - s.ring.capacity = s.surplus + 1 := by
    rw [List.length_append, List.length_singleton]
    unfold surplus at hlength ⊢
    omega
  have htake : s.since.take (s.surplus + 1) = s.since.take s.surplus ++ [evicted] := by
    have hget : s.since[s.surplus]? = some evicted := by
      rw [← List.head?_drop, hdrop]
      rfl
    rw [List.take_add_one, hget]
    rfl
  have hrest : s.since.drop (s.surplus + 1) = rest := by
    rw [← List.tail_drop, hdrop]
    rfl
  refine ⟨?_, ?_, ?_⟩
  · rw [hstep]
    show rest ++ [s.ring.stamp span] = (s.since ++ [s.ring.stamp span]).drop (_ - s.ring.capacity)
    rw [hmore, List.drop_append_of_le_length hle, hrest]
  · rw [hstep]
    show max s.ring.lostBelow (satAdd evicted.seq 1) =
      ((s.earlier ++ (s.since ++ [s.ring.stamp span]).take (_ - s.ring.capacity)).getLast?.map _).getD 0
    rw [hmore, List.take_append_of_le_length hle, htake, ← List.append_assoc, List.getLast?_append]
    refine h.max_floor fun y hy => h.lt_of_gone hy ?_
    rw [hb]
    exact List.mem_cons_self
  · rw [hstep]
    refine indexes_push (indexes_evict ?_ (hb ▸ h.asc_buffer)) _
    rw [← hb]
    exact h.index

/-- **An insert keeps the ring the newest spans**, short of the counter's wrap. -/
theorem Inv.insert (h : s.Inv) (hc : s.ring.counter < u64Max) (span : SpanEntry) : (s.step (.insert span)).Inv := by
  have hlt := h.lt_stamp hc span
  have hstored : (s.step (.insert span)).stored = s.stored ++ [s.ring.stamp span] := by
    simp [stored, step]
  refine ⟨?_, ?_, fun x hx => ?_⟩
  · by_cases hcap : s.ring.capacity = 0
    · exact h.fits_insert_nowhere hc span hcap
    · obtain ⟨hroom, hevict⟩ | ⟨evicted, rest, hb, hfull, hevict⟩ :=
        SpanRing.evict_cases { s.ring with counter := (s.ring.stamp span).seq } (Nat.pos_of_ne_zero hcap)
      · exact h.fits_insert_room span hcap hroom hevict
      · exact h.fits_insert_full span hcap hb hfull hevict
  · rw [hstored]
    refine asc_append.mpr ⟨h.asc, List.pairwise_singleton _ _, fun a ha b hb => ?_⟩
    rw [List.mem_singleton.mp hb]
    exact hlt a ha
  · rw [counter_insert]
    rw [hstored] at hx
    rcases List.mem_append.mp hx with hx | hx
    · exact Nat.le_of_lt (hlt x hx)
    · rw [List.mem_singleton.mp hx]

theorem Inv.clear (h : s.Inv) : (s.step .clear).Inv where
  asc := by
    have : (s.step .clear).stored = s.stored := by simp [stored, step]
    rw [this]
    exact h.asc
  below x hx := by
    have : (s.step .clear).stored = s.stored := by simp [stored, step]
    rw [this] at hx
    exact h.below x hx
  held := by simp [step, SpanRing.clear]
  floor := by
    have hgone : (s.step .clear).gone = s.gone ++ s.ring.buffer := by
      rw [← h.stored_eq]
      simp [gone, step, stored]
    rw [hgone, List.getLast?_append]
    show (match s.ring.buffer.getLast? with
      | some newest => max s.ring.lostBelow (satAdd newest.seq 1)
      | none => s.ring.lostBelow) = _
    cases hl : s.ring.buffer.getLast? with
    | none => exact h.floor
    | some newest =>
      exact h.max_floor fun y hy => h.lt_of_gone hy (List.mem_of_getLast? hl)
  index := indexes_empty

theorem Inv.advance (h : s.Inv) {n : ℕ} (hc : s.ring.counter + n ≤ u64Max) : (s.step (.advance n)).Inv := by
  refine ⟨⟨h.held, h.floor, h.index⟩, h.asc, fun x hx => ?_⟩
  have hcounter : (s.step (.advance n)).ring.counter = s.ring.counter + n := by
    refine Nat.mod_eq_of_lt ?_
    unfold u64Max at hc
    omega
  rw [hcounter]
  exact Nat.le_trans (h.below x hx) (Nat.le_add_right _ _)

/-- A step takes its seqs from the counter, which does not wrap. -/
theorem counter_step (s : SpanRun) {a : SpanAct} (hc : s.ring.counter + a.seqs ≤ u64Max) :
    (s.step a).ring.counter = s.ring.counter + a.seqs := by
  cases a with
  | insert span =>
    rw [counter_insert]
    exact nextSeqOf_eq hc
  | advance n =>
    refine Nat.mod_eq_of_lt ?_
    unfold u64Max at hc
    simp only [SpanAct.seqs] at hc
    omega
  | clear => rfl

theorem Inv.step (h : s.Inv) {a : SpanAct} (hc : s.ring.counter + a.seqs ≤ u64Max) : (s.step a).Inv := by
  cases a with
  | insert span => exact h.insert hc span
  | advance n => exact h.advance hc
  | clear => exact h.clear

/-- **The ring holds the newest spans in every run** whose seqs fit the
counter. -/
theorem inv_run (h : s.Inv) : ∀ {acts : List SpanAct}, s.ring.counter + (acts.map SpanAct.seqs).sum ≤ u64Max →
    (s.run acts).Inv := by
  intro acts
  induction acts generalizing s with
  | nil => exact fun _ => h
  | cons a acts ih =>
    intro hc
    rw [List.map_cons, List.sum_cons] at hc
    have ha : s.ring.counter + a.seqs ≤ u64Max := by omega
    refine ih (h.step ha) ?_
    rw [counter_step s ha]
    omega

/-- The ring as cases read it takes the same step. -/
theorem toStore_insert (h : s.Inv) (hc : s.ring.counter < u64Max) (span : SpanEntry) :
    (s.step (.insert span)).ring.toStore (h.insert hc span).asc_buffer =
      (s.ring.toStore h.asc_buffer).insert span (s.ring.stamp span).seq (nextSeqOf_le _)
        fun x hx => h.lt_stamp hc span x (h.stored_eq ▸ List.mem_append_right _ hx) := by
  unfold SpanStore.insert SpanRing.toStore
  by_cases hcap : s.ring.capacity = 0
  · rw [if_pos hcap]
    simp [step, SpanRing.insert, hcap]
  · rw [if_neg hcap]
    obtain ⟨hroom, hevict⟩ | ⟨evicted, rest, hb, hfull, hevict⟩ :=
      SpanRing.evict_cases { s.ring with counter := (s.ring.stamp span).seq } (Nat.pos_of_ne_zero hcap)
    · have hroom' : ¬ s.ring.buffer.length ≥ s.ring.capacity := Nat.not_le_of_lt hroom
      simp only [step, SpanRing.insert, if_neg hcap, hevict, if_neg hroom']
      rfl
    · have hb' : s.ring.buffer = evicted :: rest := hb
      have hfull' : s.ring.buffer.length ≥ s.ring.capacity := hfull
      simp only [step, SpanRing.insert, if_neg hcap, hevict, if_pos hfull']
      simp only [hb', List.tail_cons, List.head?_cons, Option.map_some, Option.getD_some]
      rfl

end SpanRun
end Logmon
