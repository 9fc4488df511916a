/-
# The log ring

`store/memory.rs`: the bounded store of a domain's logs, in ascending seq
order, with the loss floor `lostBelow`, the admission floor `admitFrom`, the
per-trace index and the numbering of the records stored LATE (below a seq the
ring already held). The lock and the counters beside it are one state here:
every writer holds the lock for its whole body.

Writers: `append`, `insertSorted` (both through `mergeLocked`), `clear`,
`clearThrough`. The readers are in `Logmon.Store.Read`. Late numbers and the
totals count records, and are natural numbers here.
-/
import Logmon.Lib.OrdMap
import Logmon.Filter.Matcher

namespace Logmon

open Lib

/-- `MAX_BUFFER_SIZE`: the largest ring a domain may have. -/
def maxBufferSize : ℕ := 10000000

/-- The ring: its lock's contents, its capacity and its atomics. -/
@[ext] structure InMemoryStore where
  /-- The held records, ascending by seq. -/
  entries : List LogEntry
  /-- Each trace's held seqs, ascending. -/
  traceIndex : OrdMap (List ℕ)
  /-- The held late records: seq by late number. -/
  late : OrdMap ℕ
  /-- The held late records: late number by seq. -/
  lateBySeq : OrdMap ℕ
  /-- Late numbers handed out so far. -/
  lateCounter : ℕ
  maxCapacity : ℕ
  totalStored : ℕ
  totalReceived : ℕ
  /-- One past the highest seq that was held and is gone. -/
  lostBelow : ℕ
  /-- The lowest seq still admitted after a clear. -/
  admitFrom : ℕ
  capacity_le : maxCapacity ≤ u64Max

namespace InMemoryStore

/-- An empty ring. -/
def new (capacity : ℕ) (h : capacity ≤ u64Max) : InMemoryStore where
  entries := []
  traceIndex := ∅
  late := ∅
  lateBySeq := ∅
  lateCounter := 0
  maxCapacity := capacity
  totalStored := 0
  totalReceived := 0
  lostBelow := 0
  admitFrom := 0
  capacity_le := h

/-- The index of the record with this seq. -/
def position (r : InMemoryStore) (seq : ℕ) : Option ℕ := r.entries.findIdx? fun e => e.seq = seq

/-- The record with this seq. -/
def record? (r : InMemoryStore) (seq : ℕ) : Option LogEntry :=
  (r.position seq).bind fun i => r.entries[i]?

/-- Whether this seq is held; the newest seq answers the common question. -/
def holds (r : InMemoryStore) (seq : ℕ) : Bool :=
  match r.entries.getLast? with
  | none => false
  | some newest =>
    if newest.seq < seq then false
    else if seq = newest.seq then true
    else (r.position seq).isSome

/-- The late half of `unindex`. -/
def forgetLate (r : InMemoryStore) (seq : ℕ) : InMemoryStore :=
  match r.lateBySeq.get? seq with
  | none => r
  | some n => { r with lateBySeq := r.lateBySeq.erase seq, late := r.late.erase n }

/-- A trace's index without `seq`, and without the trace once its list is
empty. -/
def unindexTrace (idx : OrdMap (List ℕ)) (traceId : Option ℕ) (seq : ℕ) : OrdMap (List ℕ) :=
  match traceId with
  | none => idx
  | some t =>
    match idx.get? t with
    | none => idx
    | some seqs => if seqs.erase seq = [] then idx.erase t else idx.insert t (seqs.erase seq)

/-- A record left the ring: forget it as a late record and in its trace's
list. -/
def unindex (r : InMemoryStore) (traceId : Option ℕ) (seq : ℕ) : InMemoryStore :=
  let r := r.forgetLate seq
  { r with traceIndex := unindexTrace r.traceIndex traceId seq }

/-- `list` and `add`, both ascending and disjoint, merged in one pass. -/
def mergeAscending (list add : List ℕ) : List ℕ :=
  match add.head?, list.getLast? with
  | none, _ => list ++ add
  | some _, none => list ++ add
  | some first, some last => if last < first then list ++ add else mergeBy id list add

/-- The lowest seq a write may store. -/
def refuseBelow (r : InMemoryStore) : ℕ := max r.lostBelow r.admitFrom

/-- `lost_below.fetch_max(seq + 1)`. -/
def loseThrough (r : InMemoryStore) (seq : ℕ) : InMemoryStore :=
  { r with lostBelow := max r.lostBelow (satAdd seq 1) }

def clearLocked (r : InMemoryStore) : InMemoryStore :=
  let r := match r.entries.getLast? with
    | none => r
    | some newest => r.loseThrough newest.seq
  { r with entries := [], traceIndex := ∅, late := ∅, lateBySeq := ∅ }

/-- `LogStore::clear`. -/
def clear (r : InMemoryStore) : InMemoryStore := r.clearLocked

/-- Empty the ring, and refuse from now on every seq up to `newestAssigned`. -/
def clearThrough (r : InMemoryStore) (newestAssigned : ℕ) : InMemoryStore :=
  let r := r.clearLocked
  { r with admitFrom := max r.admitFrom (satAdd newestAssigned 1) }

/-- The floor rises past a record that leaves, and the record is forgotten. -/
def leave (r : InMemoryStore) (e : LogEntry) : InMemoryStore :=
  (r.loseThrough e.seq).unindex e.traceId e.seq

/-- Evict the lowest held record. -/
def evictFront (r : InMemoryStore) : InMemoryStore :=
  match r.entries with
  | [] => r
  | e :: rest => ({ r with entries := rest } : InMemoryStore).leave e

/-- `while excess > 0 && !entries.is_empty()`: evict, and what excess is
left. -/
def evictExcess : ℕ → InMemoryStore → InMemoryStore × ℕ
  | 0, r => (r, 0)
  | n + 1, r => if r.entries.isEmpty then (r, n + 1) else evictExcess n r.evictFront

/-- The batch in ascending order, a repeated seq or a held one dropped. -/
def freshBatch (r : InMemoryStore) (batch : List LogEntry) : List LogEntry :=
  (dedupByKey LogEntry.seq (sortByKey LogEntry.seq batch)).filter fun e => !r.holds e.seq

/-- The batch's seqs by trace, ascending as the batch is. -/
def byTrace (batch : List LogEntry) : OrdMap (List ℕ) :=
  batch.foldl (fun m e => match e.traceId with
    | none => m
    | some t => m.insert t ((m.get? t).getD [] ++ [e.seq])) ∅

/-- A ring already holding `records`: how a case is loaded. -/
def fromRecords (capacity : ℕ) (records : List LogEntry) (lostBelow : ℕ)
    (h : max capacity records.length ≤ u64Max) : InMemoryStore where
  entries := records
  traceIndex := byTrace records
  late := ∅
  lateBySeq := ∅
  lateCounter := 0
  maxCapacity := max capacity records.length
  totalStored := 0
  totalReceived := 0
  lostBelow := lostBelow
  admitFrom := 0
  capacity_le := h

/-- Each trace's list takes the batch's seqs for it in one merge. -/
def mergeTraces (idx : OrdMap (List ℕ)) (add : OrdMap (List ℕ)) : OrdMap (List ℕ) :=
  add.entries.foldl (fun idx p => idx.insert p.1 (mergeAscending ((idx.get? p.1).getD []) p.2)) idx

/-- The batch's seqs below the newest seq held: stored late. -/
def lateSeqs (r : InMemoryStore) (batch : List LogEntry) : List ℕ :=
  match r.entries.getLast? with
  | none => []
  | some newest => (batch.map LogEntry.seq).takeWhile (· < newest.seq)

/-- The lowest of the merged run leave, each as an eviction; the last one's
seq. -/
def dropMerged (r : InMemoryStore) (dropped : List LogEntry) : InMemoryStore × Option ℕ :=
  dropped.foldl (fun s e => (s.1.leave e, some e.seq)) (r, none)

/-- Hand out the next late number to `seq`. -/
def numberOne (r : InMemoryStore) (seq : ℕ) : InMemoryStore :=
  { r with
    lateCounter := r.lateCounter + 1
    late := r.late.insert (r.lateCounter + 1) seq
    lateBySeq := r.lateBySeq.insert seq (r.lateCounter + 1) }

/-- Number the late records, in order, except those the overflow dropped. -/
def numberLate (r : InMemoryStore) (droppedThrough : Option ℕ) (seqs : List ℕ) : InMemoryStore :=
  seqs.foldl (fun r seq => if droppedThrough.any (seq ≤ ·) then r else r.numberOne seq) r

/-- `merge_locked` on the batch it stores: fresh, ascending and at or above
the floors. -/
def storeBatch (r : InMemoryStore) (batch : List LogEntry) : InMemoryStore × ℕ :=
  match batch with
  | [] => (r, 0)
  | first :: _ =>
    let late := r.lateSeqs batch
    let split := partitionPoint (fun e => decide (e.seq < first.seq)) r.entries
    let tail := r.entries.drop split
    let merged := mergeBy LogEntry.seq tail batch
    let r1 := { r with
      entries := r.entries.take split
      traceIndex := mergeTraces r.traceIndex (byTrace batch) }
    let (r2, excess) := evictExcess (r1.entries.length + merged.length - r1.maxCapacity) r1
    let (r3, droppedThrough) := dropMerged r2 (merged.take excess)
    let r4 := { r3 with entries := r3.entries ++ merged.drop excess }
    let r5 := r4.numberLate droppedThrough late
    ({ r5 with totalStored := r5.totalStored + batch.length }, tail.length)

/-- `insert_sorted`'s body: the store, and how many held records moved. -/
def mergeLocked (r : InMemoryStore) (batch : List LogEntry) : InMemoryStore × ℕ :=
  let fresh := r.freshBatch batch
  let r1 := { r with totalReceived := r.totalReceived + fresh.length }
  r1.storeBatch (fresh.filter fun e => decide (r1.refuseBelow ≤ e.seq))

def insertSorted (r : InMemoryStore) (batch : List LogEntry) : InMemoryStore := (r.mergeLocked batch).1

/-- `append` of a record newer than everything held. -/
def appendNewest (r : InMemoryStore) (e : LogEntry) : InMemoryStore :=
  let r := { r with totalReceived := r.totalReceived + 1 }
  if e.seq < r.refuseBelow then r
  else if r.maxCapacity = 0 then
    let r := r.loseThrough e.seq
    { r with totalStored := r.totalStored + 1 }
  else
    let r := if r.maxCapacity ≤ r.entries.length then r.evictFront else r
    { r with
      traceIndex := match e.traceId with
        | none => r.traceIndex
        | some t => r.traceIndex.insert t ((r.traceIndex.get? t).getD [] ++ [e.seq])
      entries := r.entries ++ [e]
      totalStored := r.totalStored + 1 }

/-- Store one record: a push when it is the newest, the merge otherwise. -/
def append (r : InMemoryStore) (e : LogEntry) : InMemoryStore :=
  match r.entries.getLast? with
  | none => r.appendNewest e
  | some newest => if newest.seq < e.seq then r.appendNewest e else (r.mergeLocked [e]).1

end InMemoryStore
end Logmon
