/-
# The pre-trigger buffer

`engine/pre_buffer.rs`: the last `capacity` arrivals, less what a trigger has
flushed, with each trace's arrivals indexed. Arrivals are numbered, and an
entry leaves once it is older than the last `capacity` of them. The entries
ascend by arrival, so the binary search of `entries_by_trace_id` finds the
entry with a given arrival, and is a lookup here.

Whatever the buffer gives back is what was appended to it
(`PreTriggerBuffer.mem_flush`, `PreTriggerBuffer.mem_entriesByTraceId`), and a
flush takes every entry still buffered of the last arrivals
(`PreTriggerBuffer.Buffered.mem_flush`).
-/
import Logmon.Gelf.Message
import Logmon.Lib.FMap

namespace Logmon

open Lib

/-- The buffered entries with their arrival indices, oldest first. -/
structure PreTriggerBuffer where
  entries : List (ℕ × LogEntry)
  /-- Entries ever appended. -/
  arrivals : ℕ
  capacity : ℕ
  /-- Each trace's buffered arrivals, ascending. -/
  byTrace : FMap ℕ (List ℕ)

namespace PreTriggerBuffer

def new (capacity : ℕ) : PreTriggerBuffer := { entries := [], arrivals := 0, capacity, byTrace := ∅ }

/-- Drop one arrival of a trace from the index: its oldest (`front`) or its
newest. -/
def forget (index : FMap ℕ (List ℕ)) (traceId : Option ℕ) (front : Bool) : FMap ℕ (List ℕ) :=
  match traceId with
  | none => index
  | some t =>
    match index.get? t with
    | none => index
    | some arrivals =>
      let left := if front then arrivals.tail else arrivals.dropLast
      if left.isEmpty then index.erase t else index.insert t left

/-- The loop of `expire`: drop from the front what arrived before
`oldestKept`. -/
def expireFrom (oldestKept : ℕ) : List (ℕ × LogEntry) → FMap ℕ (List ℕ) → List (ℕ × LogEntry) × FMap ℕ (List ℕ)
  | [], index => ([], index)
  | (a, e) :: rest, index =>
    if a < oldestKept then expireFrom oldestKept rest (forget index e.traceId true) else ((a, e) :: rest, index)

/-- Drop every entry outside the last `cap` arrivals. -/
def expire (b : PreTriggerBuffer) (cap : ℕ) : PreTriggerBuffer :=
  let (entries, byTrace) := expireFrom (b.arrivals - cap) b.entries b.byTrace
  { b with entries, byTrace }

def append (b : PreTriggerBuffer) (entry : LogEntry) : PreTriggerBuffer :=
  if b.capacity = 0 then b
  else
    let byTrace := match entry.traceId with
      | none => b.byTrace
      | some t => b.byTrace.insert t ((b.byTrace.get? t).getD [] ++ [b.arrivals])
    { b with arrivals := b.arrivals + 1, byTrace, entries := b.entries ++ [(b.arrivals, entry)] }.expire b.capacity

/-- Drain the last `preWindow` entries, oldest first. -/
def flush (b : PreTriggerBuffer) (preWindow : ℕ) : PreTriggerBuffer × List LogEntry :=
  if b.entries.length = 0 ∨ preWindow = 0 then (b, [])
  else
    let n := min preWindow b.entries.length
    let tail := b.entries.drop (b.entries.length - n)
    ({ b with entries := b.entries.take (b.entries.length - n),
              byTrace := tail.foldl (fun index p => forget index p.2.traceId false) b.byTrace },
     tail.map Prod.snd)

def resize (b : PreTriggerBuffer) (newCapacity : ℕ) : PreTriggerBuffer :=
  { b with capacity := newCapacity }.expire newCapacity

/-- Copies of a trace's entries, oldest arrival first. -/
def entriesByTraceId (b : PreTriggerBuffer) (traceId : ℕ) : List LogEntry :=
  match b.byTrace.get? traceId with
  | none => []
  | some arrivals => arrivals.filterMap fun a => (b.entries.find? fun p => p.1 = a).map Prod.snd

/-! ### What the buffer holds -/

/-- The buffered entries. -/
def held (b : PreTriggerBuffer) : List LogEntry := b.entries.map Prod.snd

variable {b : PreTriggerBuffer} {e : LogEntry}

theorem expireFrom_sublist (oldestKept : ℕ) : ∀ (l : List (ℕ × LogEntry)) (index : FMap ℕ (List ℕ)),
    (expireFrom oldestKept l index).1.Sublist l
  | [], _ => .slnil
  | (a, e) :: rest, index => by
    unfold expireFrom
    split
    · exact (expireFrom_sublist oldestKept rest _).cons _
    · exact List.Sublist.refl _

theorem mem_expire {cap : ℕ} (h : e ∈ (b.expire cap).held) : e ∈ b.held :=
  ((expireFrom_sublist _ _ _).map Prod.snd).subset h

theorem mem_append {x : LogEntry} (h : e ∈ (b.append x).held) : e ∈ b.held ∨ e = x := by
  unfold append at h
  split at h
  · exact .inl h
  · have := mem_expire h
    simpa [held] using this

theorem mem_resize {n : ℕ} (h : e ∈ (b.resize n).held) : e ∈ b.held := by
  have := mem_expire h
  exact this

theorem mem_flush {n : ℕ} :
    (∀ e ∈ (b.flush n).1.held, e ∈ b.held) ∧ ∀ e ∈ (b.flush n).2, e ∈ b.held := by
  unfold flush
  split
  · exact ⟨fun _ h => h, by simp⟩
  · refine ⟨fun e h => ?_, fun e h => ?_⟩
    · exact ((List.take_sublist _ _).map Prod.snd).subset h
    · exact ((List.drop_sublist _ _).map Prod.snd).subset h

theorem mem_entriesByTraceId {t : ℕ} (h : e ∈ b.entriesByTraceId t) : e ∈ b.held := by
  unfold entriesByTraceId at h
  split at h
  · simp at h
  · obtain ⟨a, _, ha⟩ := List.mem_filterMap.mp h
    obtain ⟨p, hp, rfl⟩ := Option.map_eq_some_iff.mp ha
    exact List.mem_map_of_mem (List.mem_of_find?_eq_some hp)

/-! ### Arrivals -/

/-- The entries ascend by arrival, and all have arrived. -/
structure Ordered (b : PreTriggerBuffer) : Prop where
  asc : b.entries.Pairwise fun p q => p.1 < q.1
  lt : ∀ q ∈ b.entries, q.1 < b.arrivals

theorem ordered_new (capacity : ℕ) : (new capacity).Ordered := ⟨.nil, fun _ h => absurd h List.not_mem_nil⟩

/-- What arrived late enough does not expire. -/
theorem mem_expireFrom {oldestKept : ℕ} {q : ℕ × LogEntry} (hq : oldestKept ≤ q.1) : ∀ {l : List (ℕ × LogEntry)}
    (index : FMap ℕ (List ℕ)), q ∈ l → q ∈ (expireFrom oldestKept l index).1
  | [], _, h => h
  | (a, e) :: rest, index, h => by
    unfold expireFrom
    split
    · rename_i ha
      rcases List.mem_cons.mp h with rfl | h
      · exact absurd ha (Nat.not_lt.mpr hq)
      · exact mem_expireFrom hq _ h
    · exact h

theorem Ordered.expire (h : b.Ordered) (cap : ℕ) : (b.expire cap).Ordered :=
  ⟨h.asc.sublist (expireFrom_sublist _ _ _), fun q hq => h.lt q ((expireFrom_sublist _ _ _).subset hq)⟩

theorem Ordered.resize (h : b.Ordered) (n : ℕ) : (b.resize n).Ordered := by
  have hb : ({ b with capacity := n } : PreTriggerBuffer).Ordered := ⟨h.asc, h.lt⟩
  exact hb.expire n

theorem Ordered.append (h : b.Ordered) (x : LogEntry) : (b.append x).Ordered := by
  unfold PreTriggerBuffer.append
  split
  · exact h
  · refine Ordered.expire ⟨?_, fun q hq => ?_⟩ _
    · refine List.pairwise_append.mpr ⟨h.asc, List.pairwise_singleton _ _, fun p hp q hq => ?_⟩
      rw [List.mem_singleton.mp hq]
      exact h.lt p hp
    · rcases List.mem_append.mp hq with hq | hq
      · exact Nat.lt_succ_of_lt (h.lt q hq)
      · rw [List.mem_singleton.mp hq]
        exact Nat.lt_succ_self _

theorem Ordered.flush (h : b.Ordered) (n : ℕ) : (b.flush n).1.Ordered := by
  unfold PreTriggerBuffer.flush
  split
  · exact h
  · exact ⟨h.asc.sublist (List.take_sublist _ _), fun q hq => h.lt q (List.take_subset _ _ hq)⟩

@[simp] theorem resize_capacity (b : PreTriggerBuffer) (n : ℕ) : (b.resize n).capacity = n := rfl

theorem flush_frame (b : PreTriggerBuffer) (n : ℕ) :
    (b.flush n).1.arrivals = b.arrivals ∧ (b.flush n).1.capacity = b.capacity := by
  unfold flush
  split <;> exact ⟨rfl, rfl⟩

@[simp] theorem append_capacity (b : PreTriggerBuffer) (x : LogEntry) : (b.append x).capacity = b.capacity := by
  unfold append
  split <;> rfl

/-- The entry that arrived `i` before the next one is buffered. -/
def Buffered (b : PreTriggerBuffer) (i : ℕ) (y : LogEntry) : Prop :=
  i < b.arrivals ∧ (b.arrivals - 1 - i, y) ∈ b.entries

/-- A resize keeps the entries within the new capacity. -/
theorem Buffered.resize {i n : ℕ} {y : LogEntry} (h : b.Buffered i y) (hi : i < n) : (b.resize n).Buffered i y := by
  refine ⟨h.1, mem_expireFrom ?_ _ h.2⟩
  show b.arrivals - n ≤ b.arrivals - 1 - i
  omega

/-- An arrival is the newest, and moves the others by one. -/
theorem Buffered.append {i : ℕ} {y : LogEntry} (h : b.Buffered i y) (hi : i + 1 < b.capacity) (x : LogEntry) :
    (b.append x).Buffered (i + 1) y := by
  unfold PreTriggerBuffer.append
  rw [if_neg (by omega)]
  have hindex : b.arrivals + 1 - 1 - (i + 1) = b.arrivals - 1 - i := by omega
  have hlt := h.1
  refine ⟨Nat.add_lt_add_right h.1 1, mem_expireFrom ?_ _ ?_⟩
  · show b.arrivals + 1 - b.capacity ≤ b.arrivals + 1 - 1 - (i + 1)
    omega
  · show (b.arrivals + 1 - 1 - (i + 1), y) ∈ _
    rw [hindex]
    exact List.mem_append_left _ h.2

theorem buffered_append_self (hc : 0 < b.capacity) (x : LogEntry) : (b.append x).Buffered 0 x := by
  unfold PreTriggerBuffer.append
  rw [if_neg (by omega)]
  refine ⟨Nat.succ_pos _, mem_expireFrom ?_ _ (List.mem_append_right _ List.mem_cons_self)⟩
  show b.arrivals + 1 - b.capacity ≤ b.arrivals + 1 - 1 - 0
  omega

/-- A flush takes an entry or leaves it. -/
theorem Buffered.flush_or_mem {i : ℕ} {y : LogEntry} (h : b.Buffered i y) (n : ℕ) :
    (b.flush n).1.Buffered i y ∨ y ∈ (b.flush n).2 := by
  unfold PreTriggerBuffer.flush
  split
  · exact .inl h
  · have hmem := h.2
    rw [← List.take_append_drop (b.entries.length - min n b.entries.length) b.entries] at hmem
    rcases List.mem_append.mp hmem with hmem | hmem
    · exact .inl ⟨h.1, hmem⟩
    · exact .inr (List.mem_map.mpr ⟨_, hmem, rfl⟩)

/-- Ascending numbers below a bound are few. -/
theorem length_le_of_asc {lo hi : ℕ} : ∀ {l : List (ℕ × LogEntry)}, l.Pairwise (fun p q => p.1 < q.1) →
    (∀ q ∈ l, lo ≤ q.1 ∧ q.1 < hi) → lo + l.length ≤ max lo hi
  | [], _, _ => Nat.le_max_left lo hi
  | q :: l, hasc, hall => by
    obtain ⟨hq, hasc⟩ := List.pairwise_cons.mp hasc
    have hhead := hall q List.mem_cons_self
    have hrest := @length_le_of_asc (q.1 + 1) hi l hasc fun p hp =>
      ⟨hq p hp, (hall p (List.mem_cons_of_mem _ hp)).2⟩
    rw [List.length_cons]
    omega

/-- **A flush of `n` takes every buffered entry among the last `n` arrivals.** -/
theorem Buffered.mem_flush {i n : ℕ} {y : LogEntry} (h : b.Buffered i y) (hb : b.Ordered) (hi : i < n) :
    y ∈ (b.flush n).2 := by
  obtain ⟨before, after, hsplit⟩ := List.append_of_mem h.2
  have hasc := hb.asc
  rw [hsplit] at hasc
  have hafter := (List.pairwise_cons.mp (List.pairwise_append.mp hasc).2.1)
  -- only later arrivals stand behind it
  have hfew : after.length ≤ i := by
    have hbound : ∀ q ∈ after, b.arrivals - i ≤ q.1 ∧ q.1 < b.arrivals := by
      intro q hq
      have h1 := hafter.1 q hq
      have h2 := hb.lt q (by rw [hsplit]; exact List.mem_append_right _ (List.mem_cons_of_mem _ hq))
      have := h.1
      simp only at h1
      omega
    have := length_le_of_asc hafter.2 hbound
    omega
  have hlen : b.entries.length = before.length + (after.length + 1) := by
    rw [hsplit, List.length_append, List.length_cons]
  unfold PreTriggerBuffer.flush
  rw [if_neg (by omega)]
  refine List.mem_map.mpr ⟨(b.arrivals - 1 - i, y), ?_, rfl⟩
  have hdrop : b.entries.length - min n b.entries.length ≤ before.length := by omega
  rw [hsplit] at hdrop ⊢
  rw [List.drop_append_of_le_length hdrop]
  exact List.mem_append_right _ List.mem_cons_self

end PreTriggerBuffer

end Logmon
