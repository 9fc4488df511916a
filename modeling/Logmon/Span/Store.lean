/-
# The span ring

`span/types.rs` and the part of `span/store.rs` a case is made of: spans in
ascending seq order, which the structure carries as a field, and the floor
below which spans were held and are gone. A span's duration is a `f64`, of
which only the bits are kept: it is copied and never computed with here.

Key definitions: `SpanEntry`, `SpanStore`, `SpanStore.insert`,
`SpanStore.rangeWithFloor`, `SpanStore.fromRecords`.
-/
import Logmon.Gelf.Message
import Logmon.Lib.Ascending

namespace Logmon

open Lib

inductive SpanKind
  | unspecified
  | internal
  | server
  | client
  | producer
  | consumer
  deriving DecidableEq

inductive SpanStatus
  | unset
  | ok
  | error (message : String)
  deriving DecidableEq

structure SpanEvent where
  name : String
  timestamp : ℤ
  attributes : List (String × JsonValue)
  deriving DecidableEq

/-- One span. Times are nanoseconds since the epoch. -/
@[ext]
structure SpanEntry where
  seq : ℕ
  traceId : ℕ
  spanId : ℕ
  parentSpanId : Option ℕ
  startTime : ℤ
  endTime : ℤ
  durationBits : ℕ
  name : String
  kind : SpanKind
  serviceName : String
  status : SpanStatus
  attributes : List (String × JsonValue)
  events : List SpanEvent
  seq_le : seq ≤ u64Max

instance : DecidableEq SpanEntry := fun _ _ => decidable_of_iff _ SpanEntry.ext_iff.symm

/-- The ring: its lock's contents and its floor. -/
structure SpanStore where
  /-- The held spans, ascending by seq. -/
  buffer : List SpanEntry
  capacity : ℕ
  /-- The lowest seq this ring can still speak for. -/
  lostBelow : ℕ
  asc : Asc SpanEntry.seq buffer

namespace SpanStore

def new (capacity : ℕ) : SpanStore := ⟨[], capacity, 0, Asc.nil⟩

/-- A ring already holding `spans`: how a case is loaded. -/
def fromRecords (capacity : ℕ) (spans : List SpanEntry) (lostBelow : ℕ) (h : Asc SpanEntry.seq spans) : SpanStore :=
  ⟨spans, max capacity spans.length, lostBelow, h⟩

/-- The span takes `seq` from the counter, and evicts the lowest when the ring
is full. -/
def insert (s : SpanStore) (span : SpanEntry) (seq : ℕ) (hle : seq ≤ u64Max) (hnew : ∀ x ∈ s.buffer, x.seq < seq) :
    SpanStore :=
  if s.capacity = 0 then { s with lostBelow := max s.lostBelow (satAdd seq 1) }
  else
    { buffer := (if s.buffer.length ≥ s.capacity then s.buffer.tail else s.buffer) ++ [{ span with seq, seq_le := hle }]
      capacity := s.capacity
      lostBelow :=
        if s.buffer.length ≥ s.capacity then
          (s.buffer.head?.map fun x => max s.lostBelow (satAdd x.seq 1)).getD s.lostBelow
        else s.lostBelow
      asc := by
        have hsub : (if s.buffer.length ≥ s.capacity then s.buffer.tail else s.buffer).Sublist s.buffer := by
          split
          · exact List.tail_sublist _
          · exact List.Sublist.refl _
        refine asc_append.mpr ⟨s.asc.sublist hsub, List.pairwise_singleton _ _, fun a ha b hb => ?_⟩
        rw [List.mem_singleton.mp hb]
        exact hnew a (hsub.subset ha) }

/-- `range_with_floor`: the held spans of an inclusive range, and the floor. -/
def rangeWithFloor (s : SpanStore) (fromSeq toSeq : ℕ) : List SpanEntry × ℕ :=
  (between SpanEntry.seq fromSeq toSeq s.buffer, s.lostBelow)

end SpanStore

/-- A span with one attribute. -/
def spanWith (key text : String) : SpanEntry where
  seq := 0
  traceId := 0
  spanId := 0
  parentSpanId := none
  startTime := 0
  endTime := 0
  durationBits := 0
  name := ""
  kind := .unspecified
  serviceName := ""
  status := .unset
  attributes := [(key, .string text)]
  events := []
  seq_le := Nat.zero_le _

end Logmon
