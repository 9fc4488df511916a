/-
# What the pre-trigger buffer is

The reference for `engine/pre_buffer.rs`: every entry that was appended at a
capacity above zero, in order of arrival, with what has become of it. A flush
takes the newest of those still present, and an arrival that is outside the
last `capacity` arrivals after an append or a resize stays marked so.

The buffer keeps none of this history. It drops entries from its two ends, and
drops from a trace's index whatever stands at the same end, without looking at
which arrival that is; this is right because an expiry meets the oldest arrival
of a trace first and a flush takes the newest ones (`Indexes.expireFrom`,
`Indexes.flushTail`).

Key definitions: `Arrival`, `ArrivalLog`, `BufferOp`, `Agrees`.
Key theorems: `Agrees.apply`, `buffer_refines_arrivals`.
-/
import Logmon.Engine.PreBuffer
import Logmon.Lib.Ascending
import Logmon.Lib.Index

namespace Logmon

open Lib

/-- An entry appended at a capacity above zero, and what has become of it. -/
structure Arrival where
  entry : LogEntry
  /-- A flush has taken it. -/
  taken : Bool
  /-- It has been outside the last `capacity` arrivals. -/
  outside : Bool

def Arrival.present (a : Arrival) : Bool := !a.taken && !a.outside

/-- Every arrival so far, oldest first, and the capacity now. -/
structure ArrivalLog where
  arrivals : List Arrival
  capacity : ℕ

namespace ArrivalLog

def new (capacity : ℕ) : ArrivalLog := ⟨[], capacity⟩

/-- Mark the arrivals with `cap` or more newer ones. -/
def markOutside (cap : ℕ) : List Arrival → List Arrival
  | [] => []
  | a :: newer => { a with outside := a.outside || decide (cap ≤ newer.length) } :: markOutside cap newer

/-- Mark the present arrivals with fewer than `n` newer ones present. -/
def markTaken (n : ℕ) : List Arrival → List Arrival
  | [] => []
  | a :: newer =>
    { a with taken := a.taken || (a.present && decide ((newer.filter Arrival.present).length < n)) } ::
      markTaken n newer

/-- The present arrivals with their numbers, the first of the list being `i`. -/
def numbered (i : ℕ) : List Arrival → List (ℕ × LogEntry)
  | [] => []
  | a :: newer => if a.present then (i, a.entry) :: numbered (i + 1) newer else numbered (i + 1) newer

/-- The arrivals still present, with their numbers. -/
def present (l : ArrivalLog) : List (ℕ × LogEntry) := numbered 0 l.arrivals

def append (l : ArrivalLog) (entry : LogEntry) : ArrivalLog :=
  if l.capacity = 0 then l
  else { l with arrivals := markOutside l.capacity (l.arrivals ++ [⟨entry, false, false⟩]) }

def resize (l : ArrivalLog) (newCapacity : ℕ) : ArrivalLog := ⟨markOutside newCapacity l.arrivals, newCapacity⟩

/-- Take the newest `n` of the present arrivals, and give their entries back. -/
def flush (l : ArrivalLog) (n : ℕ) : ArrivalLog × List LogEntry :=
  ({ l with arrivals := markTaken n l.arrivals }, (l.present.drop (l.present.length - n)).map Prod.snd)

/-- A full scan for a trace's present arrivals. -/
def scan (l : ArrivalLog) (traceId : ℕ) : List LogEntry :=
  (l.present.map Prod.snd).filter fun e => e.traceId = some traceId

end ArrivalLog

/-- What a caller may ask of the buffer. -/
inductive BufferOp
  | append (entry : LogEntry)
  | flush (preWindow : ℕ)
  | resize (newCapacity : ℕ)
  | entriesByTraceId (traceId : ℕ)

/-- The operation on the buffer, and the entries it gives back. -/
def PreTriggerBuffer.apply (b : PreTriggerBuffer) : BufferOp → PreTriggerBuffer × List LogEntry
  | .append entry => (b.append entry, [])
  | .flush n => b.flush n
  | .resize n => (b.resize n, [])
  | .entriesByTraceId t => (b, b.entriesByTraceId t)

/-- The operation on the reference. -/
def ArrivalLog.apply (l : ArrivalLog) : BufferOp → ArrivalLog × List LogEntry
  | .append entry => (l.append entry, [])
  | .flush n => l.flush n
  | .resize n => (l.resize n, [])
  | .entriesByTraceId t => (l, l.scan t)

/-- The operations one after the other, and what each gave back. -/
def PreTriggerBuffer.applyAll (b : PreTriggerBuffer) : List BufferOp → PreTriggerBuffer × List (List LogEntry)
  | [] => (b, [])
  | op :: ops => (((b.apply op).1.applyAll ops).1, (b.apply op).2 :: ((b.apply op).1.applyAll ops).2)

def ArrivalLog.applyAll (l : ArrivalLog) : List BufferOp → ArrivalLog × List (List LogEntry)
  | [] => (l, [])
  | op :: ops => (((l.apply op).1.applyAll ops).1, (l.apply op).2 :: ((l.apply op).1.applyAll ops).2)

/-! ### The reference by its numbers -/

namespace ArrivalLog

theorem numbered_append (l m : List Arrival) : ∀ i : ℕ, numbered i (l ++ m) = numbered i l ++ numbered (i + l.length) m := by
  induction l with
  | nil => exact fun i => rfl
  | cons a l ih =>
    intro i
    have hlen : i + (a :: l).length = i + 1 + l.length := by rw [List.length_cons]; omega
    simp only [List.cons_append, numbered, ih (i + 1), hlen]
    split <;> rfl

theorem numbered_bounds : ∀ (l : List Arrival) (i : ℕ), ∀ p ∈ numbered i l, i ≤ p.1 ∧ p.1 < i + l.length
  | [], _, _, h => absurd h List.not_mem_nil
  | a :: l, i, p, h => by
    have ih := numbered_bounds l (i + 1) p
    rw [List.length_cons]
    unfold numbered at h
    split at h
    · rcases List.mem_cons.mp h with rfl | h
      · exact ⟨le_rfl, by omega⟩
      · have := ih h
        omega
    · have := ih h
      omega

/-- The numbers ascend. -/
theorem asc_numbered : ∀ (l : List Arrival) (i : ℕ), Asc Prod.fst (numbered i l)
  | [], _ => .nil
  | a :: l, i => by
    unfold numbered
    split
    · exact asc_cons.mpr ⟨fun p hp => (numbered_bounds l (i + 1) p hp).1, asc_numbered l (i + 1)⟩
    · exact asc_numbered l (i + 1)

theorem length_numbered : ∀ (l : List Arrival) (i : ℕ), (numbered i l).length = (l.filter Arrival.present).length
  | [], _ => rfl
  | a :: l, i => by
    unfold numbered
    rw [List.filter_cons]
    split
    · rw [List.length_cons, List.length_cons, length_numbered l]
    · exact length_numbered l (i + 1)

@[simp] theorem length_markOutside (cap : ℕ) : ∀ l : List Arrival, (markOutside cap l).length = l.length
  | [] => rfl
  | a :: l => by rw [markOutside, List.length_cons, List.length_cons, length_markOutside cap l]

@[simp] theorem length_markTaken (n : ℕ) : ∀ l : List Arrival, (markTaken n l).length = l.length
  | [] => rfl
  | a :: l => by rw [markTaken, List.length_cons, List.length_cons, length_markTaken n l]

theorem present_outside (a : Arrival) (c : Bool) :
    ({ a with outside := a.outside || c } : Arrival).present = (a.present && !c) := by
  unfold Arrival.present
  cases a.taken <;> cases a.outside <;> simp

theorem present_taken (a : Arrival) (c : Bool) :
    ({ a with taken := a.taken || (a.present && c) } : Arrival).present = (a.present && !c) := by
  unfold Arrival.present
  cases a.taken <;> cases a.outside <;> simp

/-- What stays inside the last `cap` arrivals has a late number. -/
theorem numbered_markOutside (cap : ℕ) : ∀ (l : List Arrival) (i : ℕ),
    numbered i (markOutside cap l) = (numbered i l).filter fun p => decide (i + l.length - cap ≤ p.1)
  | [], _ => rfl
  | a :: l, i => by
    have ih := numbered_markOutside cap l (i + 1)
    have hlen : i + 1 + l.length = i + (a :: l).length := by rw [List.length_cons]; omega
    rw [hlen] at ih
    unfold markOutside numbered
    rw [present_outside, ih]
    by_cases hcap : cap ≤ l.length
    · have hout : ¬ i + (a :: l).length - cap ≤ i := by rw [List.length_cons]; omega
      rw [if_neg (by simp [hcap])]
      split
      · rw [List.filter_cons_of_neg (by simpa using hout)]
      · rfl
    · have hin : i + (a :: l).length - cap ≤ i := by rw [List.length_cons]; omega
      by_cases hp : a.present = true
      · rw [if_pos (by simp [hcap, hp]), if_pos hp, List.filter_cons_of_pos (by simpa using hin)]
      · rw [if_neg (by simp [hp]), if_neg hp]

/-- What a flush leaves are the oldest present arrivals. -/
theorem numbered_markTaken (n : ℕ) : ∀ (l : List Arrival) (i : ℕ),
    numbered i (markTaken n l) = (numbered i l).take ((numbered i l).length - n)
  | [], _ => by simp [markTaken, numbered]
  | a :: l, i => by
    have ih := numbered_markTaken n l (i + 1)
    have hlen := length_numbered l (i + 1)
    unfold markTaken numbered
    rw [present_taken, ih, ← hlen]
    by_cases hp : a.present = true
    · rw [if_pos hp, List.length_cons]
      by_cases hn : (numbered (i + 1) l).length < n
      · -- it is taken, and so is every newer one
        rw [if_neg (by simp [hn]), show (numbered (i + 1) l).length + 1 - n = 0 by omega,
          show (numbered (i + 1) l).length - n = 0 by omega]
        rfl
      · rw [if_pos (by simp [hp, hn]),
          show (numbered (i + 1) l).length + 1 - n = (numbered (i + 1) l).length - n + 1 by omega, List.take_succ_cons]
    · rw [if_neg hp, if_neg (by simp [hp])]

end ArrivalLog

/-! ### The index -/

namespace PreTriggerBuffer

/-- A trace's arrivals among the entries. -/
def arrivalsOf (entries : List (ℕ × LogEntry)) (traceId : ℕ) : List ℕ :=
  (entries.filter fun p => p.2.traceId = some traceId).map Prod.fst

theorem arrivalsOf_append (l m : List (ℕ × LogEntry)) (t : ℕ) :
    arrivalsOf (l ++ m) t = arrivalsOf l t ++ arrivalsOf m t := by
  unfold arrivalsOf
  rw [List.filter_append, List.map_append]

theorem arrivalsOf_cons (p : ℕ × LogEntry) (l : List (ℕ × LogEntry)) (t : ℕ) :
    arrivalsOf (p :: l) t = if p.2.traceId = some t then p.1 :: arrivalsOf l t else arrivalsOf l t := by
  unfold arrivalsOf
  by_cases h : p.2.traceId = some t
  · rw [if_pos h, List.filter_cons_of_pos (by simpa using h), List.map_cons]
  · rw [if_neg h, List.filter_cons_of_neg (by simpa using h)]

theorem forget_none (index : FMap ℕ (List ℕ)) (front : Bool) : forget index none front = index := rfl

theorem forget_some (index : FMap ℕ (List ℕ)) (t : ℕ) (front : Bool) :
    forget index (some t) front = editAt index t fun l => if front then l.tail else l.dropLast := by
  unfold forget editAt
  simp only
  cases index.get? t <;> rfl

variable {index : FMap ℕ (List ℕ)}

/-- The oldest entry's arrival stands first in its trace's list. -/
theorem indexes_forgetOldest {p : ℕ × LogEntry} {l : List (ℕ × LogEntry)}
    (h : Indexes index (arrivalsOf (p :: l))) : Indexes (forget index p.2.traceId true) (arrivalsOf l) := by
  cases hp : p.2.traceId with
  | none =>
    have hsame : arrivalsOf (p :: l) = arrivalsOf l := by
      funext t
      rw [arrivalsOf_cons, hp, if_neg (by simp)]
    rw [forget_none, ← hsame]
    exact h
  | some t =>
    have hleft : Function.update (arrivalsOf (p :: l)) t (arrivalsOf (p :: l) t).tail = arrivalsOf l := by
      funext t'
      by_cases ht : t' = t
      · rw [ht, Function.update_self, arrivalsOf_cons, if_pos hp, List.tail_cons]
      · rw [Function.update_of_ne ht, arrivalsOf_cons, if_neg]
        rw [hp]
        exact fun he => ht (Option.some.inj he).symm
    rw [forget_some, ← hleft]
    exact h.editAt t rfl

/-- **An expiry keeps the index**, for it drops a trace's oldest arrivals. -/
theorem indexes_expireFrom (oldestKept : ℕ) : ∀ {l : List (ℕ × LogEntry)} {index : FMap ℕ (List ℕ)},
    Indexes index (arrivalsOf l) →
      Indexes (expireFrom oldestKept l index).2 (arrivalsOf (expireFrom oldestKept l index).1)
  | [], _, h => h
  | p :: l, index, h => by
    unfold expireFrom
    split
    · exact indexes_expireFrom oldestKept (indexes_forgetOldest h)
    · exact h

/-- Dropping each entry's newest arrival, whichever it is, drops as many of
each trace as the entries have. -/
theorem indexes_flushTail : ∀ {tail : List (ℕ × LogEntry)} {index : FMap ℕ (List ℕ)} {kept gone : ℕ → List ℕ},
    Indexes index (fun t => kept t ++ gone t) → (∀ t, (gone t).length = (arrivalsOf tail t).length) →
      Indexes (tail.foldl (fun index p => forget index p.2.traceId false) index) kept
  | [], index, kept, gone, h, hlen => by
    have hnil : ∀ t, gone t = [] := fun t => List.length_eq_zero_iff.mp (hlen t)
    intro t
    rw [List.foldl_nil, h t]
    show listed (kept t ++ gone t) = listed (kept t)
    rw [hnil t, List.append_nil]
  | p :: tail, index, kept, gone, h, hlen => by
    rw [List.foldl_cons]
    cases hp : p.2.traceId with
    | none =>
      refine @indexes_flushTail tail _ kept gone (by rw [forget_none]; exact h) fun t => ?_
      rw [hlen t, arrivalsOf_cons, hp, if_neg (by simp)]
    | some t =>
      have hgone : gone t ≠ [] := by
        intro hnil
        have := hlen t
        rw [hnil, arrivalsOf_cons, if_pos hp] at this
        simp at this
      refine @indexes_flushTail tail _ kept (Function.update gone t (gone t).dropLast) ?_ fun t' => ?_
      · have hleft : (fun t' => kept t' ++ Function.update gone t (gone t).dropLast t') =
            Function.update (fun t' => kept t' ++ gone t') t (kept t ++ gone t).dropLast := by
          funext t'
          by_cases ht : t' = t
          · rw [ht, Function.update_self, Function.update_self, List.dropLast_append_of_ne_nil hgone]
          · rw [Function.update_of_ne ht, Function.update_of_ne ht]
        rw [forget_some, hleft]
        exact h.editAt t rfl
      · by_cases ht : t' = t
        · rw [ht, Function.update_self, List.length_dropLast, hlen t, arrivalsOf_cons, if_pos hp, List.length_cons,
            Nat.add_sub_cancel]
        · rw [Function.update_of_ne ht, hlen t', arrivalsOf_cons, if_neg]
          rw [hp]
          exact fun he => ht (Option.some.inj he).symm

/-- An append files the arrival last in its trace's list. -/
theorem indexes_append {entries : List (ℕ × LogEntry)} (h : Indexes index (arrivalsOf entries)) (a : ℕ) (e : LogEntry) :
    Indexes (match e.traceId with
      | none => index
      | some t => index.insert t ((index.get? t).getD [] ++ [a])) (arrivalsOf (entries ++ [(a, e)])) := by
  cases he : e.traceId with
  | none =>
    have hsame : arrivalsOf (entries ++ [(a, e)]) = arrivalsOf entries := by
      funext t
      rw [arrivalsOf_append, arrivalsOf_cons, he, if_neg (by simp)]
      exact List.append_nil _
    rw [hsame]
    exact h
  | some t =>
    have hmore : arrivalsOf (entries ++ [(a, e)]) = Function.update (arrivalsOf entries) t (arrivalsOf entries t ++ [a]) := by
      funext t'
      rw [arrivalsOf_append, arrivalsOf_cons, he]
      by_cases ht : t' = t
      · rw [ht, Function.update_self, if_pos rfl]
        rfl
      · rw [Function.update_of_ne ht, if_neg fun he => ht (Option.some.inj he).symm]
        exact List.append_nil _
    rw [hmore]
    exact h.push t a

/-! ### The buffer against the reference -/

/-- What expires from ascending entries is what is too old. -/
theorem expireFrom_eq_filter (oldestKept : ℕ) : ∀ {l : List (ℕ × LogEntry)} (index : FMap ℕ (List ℕ)), Asc Prod.fst l →
    (expireFrom oldestKept l index).1 = l.filter fun p => decide (oldestKept ≤ p.1)
  | [], _, _ => rfl
  | p :: l, index, h => by
    obtain ⟨hp, hl⟩ := asc_cons.mp h
    unfold expireFrom
    split
    · rename_i hlt
      rw [expireFrom_eq_filter oldestKept _ hl, List.filter_cons_of_neg (by simpa using hlt)]
    · rename_i hge
      symm
      rw [List.filter_eq_self]
      intro q hq
      rcases List.mem_cons.mp hq with rfl | hq
      · simpa using hge
      · have := hp q hq
        simp only [decide_eq_true_eq]
        omega

/-- The buffer holds what is present in the reference, and its index is an
index of what it holds. -/
structure Agrees (b : PreTriggerBuffer) (l : ArrivalLog) : Prop where
  arrivals : b.arrivals = l.arrivals.length
  capacity : b.capacity = l.capacity
  entries : b.entries = l.present
  index : Indexes b.byTrace (arrivalsOf b.entries)

variable {b : PreTriggerBuffer} {l : ArrivalLog}

theorem agrees_new (capacity : ℕ) : Agrees (new capacity) (ArrivalLog.new capacity) :=
  ⟨rfl, rfl, rfl, indexes_empty⟩

theorem Agrees.asc (h : Agrees b l) : Asc Prod.fst b.entries := by
  rw [h.entries]
  exact ArrivalLog.asc_numbered l.arrivals 0

/-- An expiry is the marking of what is outside. -/
theorem Agrees.expire (h : Agrees b l) (cap : ℕ) (hcap : b.capacity = cap) :
    Agrees (b.expire cap) ⟨ArrivalLog.markOutside cap l.arrivals, cap⟩ := by
  refine ⟨?_, hcap, ?_, indexes_expireFrom _ h.index⟩
  · show b.arrivals = _
    rw [h.arrivals, ArrivalLog.length_markOutside]
  · show (expireFrom (b.arrivals - cap) b.entries b.byTrace).1 = _
    rw [expireFrom_eq_filter _ _ h.asc, h.entries, h.arrivals]
    unfold ArrivalLog.present
    rw [ArrivalLog.numbered_markOutside, Nat.zero_add]

theorem Agrees.resize (h : Agrees b l) (n : ℕ) : Agrees (b.resize n) (l.resize n) := by
  have hsized : Agrees { b with capacity := n } { l with capacity := n } := ⟨h.arrivals, rfl, h.entries, h.index⟩
  exact hsized.expire n rfl

theorem Agrees.append (h : Agrees b l) (e : LogEntry) : Agrees (b.append e) (l.append e) := by
  unfold PreTriggerBuffer.append ArrivalLog.append
  rw [← h.capacity]
  by_cases hc : b.capacity = 0
  · rw [if_pos hc, if_pos hc]
    exact h
  · rw [if_neg hc, if_neg hc]
    refine Agrees.expire (l := ⟨l.arrivals ++ [⟨e, false, false⟩], l.capacity⟩) ?_ _ rfl
    refine ⟨?_, h.capacity, ?_, ?_⟩
    · show b.arrivals + 1 = _
      rw [h.arrivals, List.length_append, List.length_singleton]
    · show b.entries ++ [(b.arrivals, e)] = _
      unfold ArrivalLog.present
      rw [ArrivalLog.numbered_append, h.entries, h.arrivals, Nat.zero_add]
      rfl
    · exact indexes_append h.index b.arrivals e

/-- What a flush leaves and what it gives back. -/
theorem flush_eq (b : PreTriggerBuffer) (n : ℕ) :
    (b.flush n).1.entries = b.entries.take (b.entries.length - n) ∧
      (b.flush n).2 = (b.entries.drop (b.entries.length - n)).map Prod.snd ∧
        (b.flush n).1.byTrace =
          (b.entries.drop (b.entries.length - n)).foldl (fun index p => forget index p.2.traceId false) b.byTrace := by
  unfold flush
  have hmin : b.entries.length - min n b.entries.length = b.entries.length - n := by omega
  split
  · rename_i hnone
    have hdrop : b.entries.drop (b.entries.length - n) = [] := by
      rw [List.drop_eq_nil_iff]
      omega
    rw [hdrop, List.take_of_length_le (by omega)]
    exact ⟨rfl, rfl, rfl⟩
  · simp only [hmin, and_self]

theorem Agrees.flush (h : Agrees b l) (n : ℕ) : Agrees (b.flush n).1 (l.flush n).1 ∧ (b.flush n).2 = (l.flush n).2 := by
  obtain ⟨hentries, hout, hindex⟩ := b.flush_eq n
  refine ⟨⟨?_, ?_, ?_, ?_⟩, ?_⟩
  · rw [(flush_frame b n).1, h.arrivals]
    exact (ArrivalLog.length_markTaken n l.arrivals).symm
  · rw [(flush_frame b n).2]
    exact h.capacity
  · rw [hentries, h.entries]
    exact (ArrivalLog.numbered_markTaken n l.arrivals 0).symm
  · rw [hentries, hindex]
    have hsplit : ∀ t, arrivalsOf b.entries t = arrivalsOf (b.entries.take (b.entries.length - n)) t ++
        arrivalsOf (b.entries.drop (b.entries.length - n)) t := by
      intro t
      rw [← arrivalsOf_append, List.take_append_drop]
    refine indexes_flushTail ?_ fun t => rfl
    intro t
    rw [h.index t, hsplit t]
  · rw [hout, h.entries]
    rfl

/-- **The index answers as a full scan does.** -/
theorem Agrees.entriesByTraceId (h : Agrees b l) (t : ℕ) :
    b.entriesByTraceId t = b.held.filter fun e => e.traceId = some t := by
  have hscan : (arrivalsOf b.entries t).filterMap (fun a => (b.entries.find? fun p => p.1 = a).map Prod.snd) =
      b.held.filter fun e => e.traceId = some t := by
    unfold arrivalsOf held
    rw [List.filterMap_map, List.filter_map]
    have hfound : ∀ p ∈ b.entries.filter (fun p => p.2.traceId = some t),
        (b.entries.find? fun q => q.1 = p.1).map Prod.snd = some p.2 := by
      intro p hp
      have hmem := (List.mem_filter.mp hp).1
      obtain ⟨q, hq⟩ := Option.isSome_iff_exists.mp (List.find?_isSome.mpr ⟨p, hmem, decide_eq_true rfl⟩ :
        (b.entries.find? fun q => q.1 = p.1).isSome)
      have hkey : q.1 = p.1 := by simpa using List.find?_some hq
      rw [hq, h.asc.eq_of_key (List.mem_of_find?_eq_some hq) hmem hkey]
      rfl
    rw [List.filterMap_congr (g := fun p => some p.2) hfound]
    exact congrFun List.filterMap_eq_map _
  unfold PreTriggerBuffer.entriesByTraceId
  rw [h.index t]
  by_cases hnil : arrivalsOf b.entries t = []
  · rw [hnil, listed_nil, ← hscan, hnil]
    rfl
  · rw [listed_of_ne hnil]
    exact hscan

/-- One operation: the buffer and the reference still agree, and give back the
same entries. -/
theorem Agrees.apply (h : Agrees b l) (op : BufferOp) :
    Agrees (b.apply op).1 (l.apply op).1 ∧ (b.apply op).2 = (l.apply op).2 := by
  cases op with
  | append e => exact ⟨h.append e, rfl⟩
  | flush n => exact h.flush n
  | resize n => exact ⟨h.resize n, rfl⟩
  | entriesByTraceId t =>
    refine ⟨h, ?_⟩
    show b.entriesByTraceId t = l.scan t
    rw [h.entriesByTraceId, held, h.entries]
    rfl

/-- Any number of operations. -/
theorem Agrees.applyAll (h : Agrees b l) (ops : List BufferOp) :
    Agrees (b.applyAll ops).1 (l.applyAll ops).1 ∧ (b.applyAll ops).2 = (l.applyAll ops).2 := by
  induction ops generalizing b l with
  | nil => exact ⟨h, rfl⟩
  | cons op ops ih =>
    obtain ⟨hagree, hout⟩ := h.apply op
    obtain ⟨hagrees, houts⟩ := ih hagree
    exact ⟨hagrees, congrArg₂ List.cons hout houts⟩

/-- An operation numbers at most one arrival. -/
theorem arrivals_apply (b : PreTriggerBuffer) (op : BufferOp) : (b.apply op).1.arrivals ≤ b.arrivals + 1 := by
  cases op with
  | append entry =>
    show (b.append entry).arrivals ≤ _
    unfold PreTriggerBuffer.append
    split
    · exact Nat.le_succ _
    · exact le_rfl
  | flush n => exact ((b.flush_frame n).1.trans_le (Nat.le_succ _))
  | resize n => exact Nat.le_succ _
  | entriesByTraceId t => exact Nat.le_succ _

theorem arrivals_applyAll : ∀ (ops : List BufferOp) (b : PreTriggerBuffer),
    (b.applyAll ops).1.arrivals ≤ b.arrivals + ops.length
  | [], _ => le_rfl
  | op :: ops, b => by
    have hrest := arrivals_applyAll ops (b.apply op).1
    have hop := b.arrivals_apply op
    rw [List.length_cons]
    show ((b.apply op).1.applyAll ops).1.arrivals ≤ _
    omega

/-- A flush of `n` takes the newest entries, `n` of them or all. -/
theorem flush_newest (b : PreTriggerBuffer) (n : ℕ) :
    b.held = (b.flush n).1.held ++ (b.flush n).2 ∧ (b.flush n).2.length = min n b.held.length := by
  obtain ⟨hentries, hout, _⟩ := b.flush_eq n
  unfold held
  rw [hentries, hout, ← List.map_append, List.take_append_drop]
  refine ⟨rfl, ?_⟩
  rw [List.length_map, List.length_map, List.length_drop]
  omega

end PreTriggerBuffer

/-- **The buffer refines the history of its arrivals.** After any operations
it holds the arrivals no flush has taken and that were never outside the last
`capacity`, in order of arrival; it has given back what the reference gives;
its index lists each trace's buffered arrivals, ascending, and no empty list;
a lookup is a full scan, and a flush takes exactly the newest. Its arrival
counter is a `u64` for as many operations as that counts. -/
theorem buffer_refines_arrivals (capacity : ℕ) (ops : List BufferOp) :
    let b := ((PreTriggerBuffer.new capacity).applyAll ops).1
    let l := ((ArrivalLog.new capacity).applyAll ops).1
    b.entries = l.present ∧
      ((PreTriggerBuffer.new capacity).applyAll ops).2 = ((ArrivalLog.new capacity).applyAll ops).2 ∧
      (∀ t, b.byTrace.get? t = listed (PreTriggerBuffer.arrivalsOf b.entries t) ∧
        (PreTriggerBuffer.arrivalsOf b.entries t).Pairwise (· < ·)) ∧
      (∀ t arrivals, b.byTrace.get? t = some arrivals → arrivals ≠ []) ∧
      (∀ t, b.entriesByTraceId t = b.held.filter fun e => e.traceId = some t) ∧
      (∀ n, b.held = (b.flush n).1.held ++ (b.flush n).2 ∧ (b.flush n).2.length = min n b.held.length) ∧
      (ops.length ≤ u64Max → b.arrivals ≤ u64Max) := by
  intro b l
  obtain ⟨hagree, hout⟩ := (PreTriggerBuffer.agrees_new capacity).applyAll ops
  refine ⟨hagree.entries, hout, fun t => ⟨hagree.index t, ?_⟩, fun t arrivals => hagree.index.ne_nil,
    hagree.entriesByTraceId, b.flush_newest, fun hops => ?_⟩
  · unfold PreTriggerBuffer.arrivalsOf
    exact (hagree.asc.filter _).map_keys
  · have := PreTriggerBuffer.arrivals_applyAll ops (.new capacity)
    exact this.trans (by simpa [PreTriggerBuffer.new] using hops)

end Logmon
