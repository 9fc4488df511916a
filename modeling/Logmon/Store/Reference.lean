/-
# What the ring is for

A reference model of the log ring, with nothing of its machinery: the records
held, the seqs that were stored and left, the admission floor. An offer takes
the records of a batch one by one (a repeated or held seq is dropped, one below
a floor is refused), sorts, and drops the lowest past capacity. The ring of
`store/memory.rs` refines it over every run of its writers.

Key definitions: `RingOp`, `InMemoryStore.run`, `Reference`, `Refines`.
Key theorems: `Refines.apply`, `refines_run`, `ring_refines_reference`.
-/
import Logmon.Store.Offer

namespace Logmon

open Lib

/-- A call of one of the ring's writers. -/
inductive RingOp where
  | append (e : LogEntry)
  | insertSorted (batch : List LogEntry)
  | clear
  | clearThrough (newestAssigned : ℕ)

namespace InMemoryStore

def apply (r : InMemoryStore) : RingOp → InMemoryStore
  | .append e => r.append e
  | .insertSorted batch => r.insertSorted batch
  | .clear => r.clear
  | .clearThrough n => r.clearThrough n

def run (r : InMemoryStore) (ops : List RingOp) : InMemoryStore := ops.foldl apply r

theorem WF.apply {r : InMemoryStore} (h : r.WF) (op : RingOp) : (r.apply op).WF := by
  cases op with
  | append e =>
    change (r.append e).WF
    rw [h.append_eq_offer]
    exact h.offer [e]
  | insertSorted batch =>
    change (r.insertSorted batch).WF
    rw [h.insertSorted_eq_offer]
    exact h.offer batch
  | clear => exact h.clear
  | clearThrough n => exact h.clearThrough n

theorem WF.run : ∀ {ops : List RingOp} {r : InMemoryStore}, r.WF → (r.run ops).WF
  | [], _, h => h
  | op :: _, r, h => WF.run (r := r.apply op) (h.apply op)

end InMemoryStore

/-- The reference model. -/
structure Reference where
  /-- The records held, ascending by seq. -/
  held : List LogEntry
  /-- The seqs that were stored and later left. -/
  gone : List ℕ
  admitFrom : ℕ
  capacity : ℕ

namespace Reference

def new (capacity : ℕ) : Reference := ⟨[], [], 0, capacity⟩

/-- One past the largest seq gone, saturating; 0 when none is. -/
def lossFloor (m : Reference) : ℕ := m.gone.foldl (fun f s => max f (satAdd s 1)) 0

/-- A record is taken when its seq is new and at or above both floors. -/
def takeOne (m : Reference) (held : List LogEntry) (e : LogEntry) : List LogEntry :=
  if m.lossFloor ≤ e.seq ∧ m.admitFrom ≤ e.seq ∧ ∀ x ∈ held, x.seq ≠ e.seq then held ++ [e] else held

/-- The held records with the batch's taken, ascending. -/
def union (m : Reference) (batch : List LogEntry) : List LogEntry :=
  sortByKey LogEntry.seq (batch.foldl m.takeOne m.held)

/-- The lowest past capacity leave. -/
def offer (m : Reference) (batch : List LogEntry) : Reference :=
  let all := m.union batch
  let k := all.length - m.capacity
  { m with held := all.drop k, gone := m.gone ++ (all.take k).map LogEntry.seq }

def clear (m : Reference) : Reference :=
  { m with held := [], gone := m.gone ++ m.held.map LogEntry.seq }

def apply (m : Reference) : RingOp → Reference
  | .append e => m.offer [e]
  | .insertSorted batch => m.offer batch
  | .clear => m.clear
  | .clearThrough n => { m.clear with admitFrom := max m.admitFrom (satAdd n 1) }

def run (m : Reference) (ops : List RingOp) : Reference := ops.foldl apply m

theorem run_capacity : ∀ (ops : List RingOp) (m : Reference), (m.run ops).capacity = m.capacity
  | [], _ => rfl
  | op :: ops, m => by
    have := run_capacity ops (m.apply op)
    cases op <;> exact this

/-- The floor is one past a largest seq gone. -/
theorem lossFloor_eq {m : Reference} {s : ℕ} (hs : s ∈ m.gone) (hmax : ∀ t ∈ m.gone, t ≤ s) :
    m.lossFloor = satAdd s 1 := by
  have key : ∀ (l : List ℕ) (f : ℕ), f ≤ satAdd s 1 → (∀ t ∈ l, t ≤ s) → s ∈ l ∨ f = satAdd s 1 →
      l.foldl (fun f s => max f (satAdd s 1)) f = satAdd s 1 := by
    intro l
    induction l with
    | nil => intro f _ _ h; exact h.resolve_left List.not_mem_nil
    | cons t l ih =>
      intro f hf hle h
      have ht : satAdd t 1 ≤ satAdd s 1 := satAdd_mono (hle t List.mem_cons_self) 1
      refine ih _ (max_le hf ht) (fun x hx => hle x (List.mem_cons_of_mem _ hx)) ?_
      rcases h with h | h
      · rcases List.mem_cons.mp h with rfl | h
        · exact Or.inr (max_eq_right hf)
        · exact Or.inl h
      · exact Or.inr (by rw [h]; exact max_eq_left ht)
  exact key m.gone 0 (Nat.zero_le _) hmax (Or.inl hs)

/-- A seq may be taken: at or above both floors and not held. -/
def Takes (m : Reference) (held : List LogEntry) (s : ℕ) : Prop :=
  m.lossFloor ≤ s ∧ m.admitFrom ≤ s ∧ ∀ x ∈ held, x.seq ≠ s

/-- Taking the batch one by one takes the first record of each seq that may
be taken. -/
theorem mem_foldl_takeOne (m : Reference) {e : LogEntry} : ∀ {batch held : List LogEntry},
    e ∈ batch.foldl m.takeOne held ↔
      e ∈ held ∨ (firstWith LogEntry.seq e.seq batch = some e ∧ m.Takes held e.seq)
  | [], held => by simp [firstWith]
  | b :: batch, held => by
    rw [List.foldl_cons, mem_foldl_takeOne m]
    by_cases hb : m.Takes held b.seq
    · have htake : m.takeOne held b = held ++ [b] := if_pos hb
      rw [htake]
      by_cases hbe : b.seq = e.seq
      · have hfirst : firstWith LogEntry.seq e.seq (b :: batch) = some b := by simp [firstWith, hbe]
        rw [hfirst]
        constructor
        · rintro (h | ⟨-, -, -, h⟩)
          · rcases List.mem_append.mp h with h | h
            · exact Or.inl h
            · obtain rfl := List.mem_singleton.mp h
              exact Or.inr ⟨rfl, hb⟩
          · exact absurd hbe (h b (by simp))
        · rintro (h | ⟨h, -⟩)
          · exact Or.inl (List.mem_append_left _ h)
          · obtain rfl := Option.some.inj h
            exact Or.inl (by simp)
      · have hfirst : firstWith LogEntry.seq e.seq (b :: batch) = firstWith LogEntry.seq e.seq batch := by
          simp [firstWith, hbe]
        have hne : e ≠ b := fun h => hbe (by rw [h])
        rw [hfirst]
        simp [Takes, hbe, hne, or_imp, forall_and]
    · have htake : m.takeOne held b = held := if_neg hb
      rw [htake]
      by_cases hbe : b.seq = e.seq
      · rw [hbe] at hb
        simp [hb]
      · simp [firstWith, hbe]

theorem nodup_foldl_takeOne (m : Reference) : ∀ {batch held : List LogEntry},
    (held.map LogEntry.seq).Nodup → ((batch.foldl m.takeOne held).map LogEntry.seq).Nodup
  | [], _, h => h
  | b :: batch, held, h => by
    rw [List.foldl_cons]
    refine nodup_foldl_takeOne m ?_
    unfold takeOne
    split_ifs with hb
    · rw [List.map_append, List.nodup_append]
      refine ⟨h, by simp, ?_⟩
      intro s hs t ht
      obtain ⟨x, hx, rfl⟩ := List.mem_map.mp hs
      have : t = b.seq := by simpa using ht
      rw [this]
      exact hb.2.2 x hx
    · exact h

end Reference

/-! ### The refinement -/

/-- The ring shows what the model holds. -/
structure Refines (r : InMemoryStore) (m : Reference) : Prop where
  held : r.entries = m.held
  lost : r.lostBelow = m.lossFloor
  admits : r.admitFrom = m.admitFrom
  capacity : r.maxCapacity = m.capacity

theorem refines_new (cap : ℕ) (h : cap ≤ u64Max) : Refines (InMemoryStore.new cap h) (Reference.new cap) :=
  ⟨rfl, rfl, rfl, rfl⟩

section refines

variable {r : InMemoryStore} {m : Reference}

/-- The run the ring merges is the model's union. -/
theorem Refines.union (h : Refines r m) (hwf : r.WF) (batch : List LogEntry) :
    r.runWith (r.admitted batch) = m.union batch := by
  have hnodup : ((batch.foldl m.takeOne m.held).map LogEntry.seq).Nodup := by
    refine m.nodup_foldl_takeOne ?_
    rw [← h.held]
    exact hwf.asc.nodup_keys
  refine Asc.ext LogEntry.seq (hwf.asc_runWith (hwf.fits_admitted batch))
    (asc_sortByKey_of_nodup hnodup) fun e => ?_
  rw [InMemoryStore.mem_runWith, hwf.mem_admitted, Reference.union, mem_sortByKey, m.mem_foldl_takeOne, ← h.held]
  unfold Reference.Takes
  rw [← h.lost, ← h.admits]
  tauto

theorem lostAfter_eq_foldl (floor : ℕ) (es : List LogEntry) : InMemoryStore.lostAfter floor es =
    (es.map LogEntry.seq).foldl (fun f s => max f (satAdd s 1)) floor := by
  rw [List.foldl_map]
  rfl

theorem Refines.offer (h : Refines r m) (hwf : r.WF) (batch : List LogEntry) :
    Refines (r.offer batch) (m.offer batch) where
  held := by
    rw [InMemoryStore.offer_entries, InMemoryStore.keptOf, h.union hwf, h.capacity]
    rfl
  lost := by
    rw [InMemoryStore.offer_lostBelow, lostAfter_eq_foldl, InMemoryStore.overflow, h.union hwf, h.capacity, h.lost]
    simp [Reference.lossFloor, Reference.offer]
  admits := by
    rw [InMemoryStore.offer_admitFrom, h.admits]
    rfl
  capacity := by
    rw [InMemoryStore.offer_maxCapacity, h.capacity]
    rfl

theorem Refines.clear (h : Refines r m) (hwf : r.WF) : Refines r.clear m.clear := by
  unfold InMemoryStore.clear
  rw [InMemoryStore.clearLocked_eq hwf.asc]
  refine ⟨rfl, ?_, h.admits, h.capacity⟩
  simp only [Reference.lossFloor, Reference.clear, List.foldl_append]
  rw [← lostAfter_eq_foldl, ← h.held, h.lost]
  rfl

/-- Each writer keeps the refinement. -/
theorem Refines.apply (h : Refines r m) (hwf : r.WF) (op : RingOp) : Refines (r.apply op) (m.apply op) := by
  cases op with
  | append e =>
    change Refines (r.append e) (m.offer [e])
    rw [hwf.append_eq_offer]
    exact h.offer hwf [e]
  | insertSorted batch =>
    change Refines (r.insertSorted batch) (m.offer batch)
    rw [hwf.insertSorted_eq_offer]
    exact h.offer hwf batch
  | clear => exact h.clear hwf
  | clearThrough n =>
    have hc := h.clear hwf
    refine ⟨hc.held, hc.lost, ?_, hc.capacity⟩
    change max r.clearLocked.admitFrom (satAdd n 1) = max m.admitFrom (satAdd n 1)
    rw [InMemoryStore.clearLocked_eq hwf.asc, h.admits]

end refines

theorem refines_run : ∀ {ops : List RingOp} {r : InMemoryStore} {m : Reference},
    Refines r m → r.WF → Refines (r.run ops) (m.run ops)
  | [], _, _, h, _ => h
  | op :: _, r, m, h, hwf =>
    refines_run (r := r.apply op) (m := m.apply op) (h.apply hwf op) (hwf.apply op)

/-- **The ring refines the reference model.** After every run of the writers
it holds what the model holds, in strictly ascending order and within
capacity; the loss floor is one past the largest seq that was stored and left
(saturating at the top of `u64`, and 0 when none left); every held seq is at
or above both floors; the trace index lists each trace's held seqs and nothing
else; and the fast path of `append` leaves the same state as the merge. -/
theorem ring_refines_reference (cap : ℕ) (hcap : cap ≤ u64Max) (ops : List RingOp) :
    let r := (InMemoryStore.new cap hcap).run ops
    let m := (Reference.new cap).run ops
    r.entries = m.held ∧ r.entries.Pairwise (fun a b => a.seq < b.seq) ∧ r.entries.length ≤ cap ∧
      (m.gone = [] → r.lostBelow = 0) ∧
      (∀ s ∈ m.gone, (∀ t ∈ m.gone, t ≤ s) → r.lostBelow = min (s + 1) u64Max) ∧
      (∀ e ∈ r.entries, r.lostBelow ≤ e.seq ∧ r.admitFrom ≤ e.seq) ∧
      (∀ t, r.traceIndex.get? t =
        let seqs := (r.entries.filter fun e => e.traceId = some t).map LogEntry.seq
        if seqs = [] then none else some seqs) ∧
      ∀ e, r.append e = r.insertSorted [e] := by
  intro r m
  have hwf : r.WF := (InMemoryStore.wf_new cap hcap).run
  have h : Refines r m := refines_run (refines_new cap hcap) (InMemoryStore.wf_new cap hcap)
  have hrc : r.maxCapacity = cap := by
    rw [h.capacity]
    exact Reference.run_capacity ops _
  refine ⟨h.held, hwf.asc, hrc ▸ hwf.len, fun hg => ?_, fun s hs hmax => ?_,
    fun e he => ⟨hwf.lost e he, hwf.admits e he⟩, hwf.index, fun e => ?_⟩
  · rw [h.lost, Reference.lossFloor, hg]
    rfl
  · rw [h.lost]
    exact Reference.lossFloor_eq hs hmax
  · rw [hwf.append_eq_offer, hwf.insertSorted_eq_offer]

/-- A ring that holds two of three records, one of them offered late. -/
theorem ring_refines_reference_two :
    2 ≤ u64Max ∧ ((InMemoryStore.new 2 (by decide)).run
      [.append (.blank 5), .insertSorted [.blank 3, .blank 7]]).entries =
      ((Reference.new 2).run [.append (.blank 5), .insertSorted [.blank 3, .blank 7]]).held :=
  ⟨by decide, (ring_refines_reference 2 (by decide) _).1⟩

/-- The floor saturates: a record with the top seq leaves the floor AT the
top, not one past it. -/
theorem lostBelow_saturates :
    let ops := [RingOp.append (.blank u64Max)]
    ((Reference.new 0).run ops).gone = [u64Max] ∧
      ((InMemoryStore.new 0 (Nat.zero_le _)).run ops).lostBelow ≠ 1 + u64Max := by
  decide

end Logmon
