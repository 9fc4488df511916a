/-
# The sample tier

`collector/sample.rs`: one record for each well-formed span, in columns, in
chunks sealed when full, under a byte budget that decides how many chunks
there may be. A chunk's columns have one length, which the tier carries as a
field. Once the budget has refused a record it refuses every later one, with
no flag that says so.

Key definitions: `SampleRecord`, `SampleChunk`, `SampleTier`,
`SampleTier.push`, `SampleSnapshot.records`.
Key theorems: `SampleTier.push_cases`, `SampleTier.Retains.push`.
-/
import Logmon.Collector.State
import Logmon.Span.Store
import Mathlib.Data.List.GetD

namespace Logmon

/-- Records per chunk. -/
def chunkRecords : ℕ := 8192

namespace SampleLevel

/-- Bytes retained per matched span, before group keys. -/
def bytesPerRecord : SampleLevel → ℕ
  | .scalar => 0
  | .timing => 21
  | .tree => 53

def hasTree : SampleLevel → Bool
  | .tree => true
  | _ => false

end SampleLevel

def bytesPerGroupKey : ℕ := 4

/-- `MAX_GROUP_KEYS`, where the tier's columns are allocated. -/
def maxGroupKeyColumns : ℕ := 8

def SpanStatus.code : SpanStatus → ℕ
  | .unset => 0
  | .ok => 1
  | .error _ => 2

def SpanKind.code : SpanKind → ℕ
  | .unspecified => 0
  | .internal => 1
  | .server => 2
  | .client => 3
  | .producer => 4
  | .consumer => 5

/-- Status in bits 0-1, kind in bits 2-4. -/
def packFlags (status : SpanStatus) (kind : SpanKind) : ℕ := status.code ||| (kind.code <<< 2)

/-- One span's retained record, as offered to the tier. -/
structure SampleRecord where
  startNs : ℤ
  endNs : ℤ
  nameId : ℕ
  flags : ℕ
  spanId : ℕ
  /-- 0 means root. -/
  parentSpanId : ℕ
  traceId : ℕ
  deriving DecidableEq

/-- What a level keeps of a record: identity at tree level only. -/
def SampleRecord.atLevel (level : SampleLevel) (r : SampleRecord) : SampleRecord :=
  if level.hasTree then r else { r with spanId := 0, parentSpanId := 0, traceId := 0 }

/-! ### Chunks -/

/-- A group of columns, one place of each for every record. -/
structure SampleChunk where
  startNs : List ℤ
  endNs : List ℤ
  nameId : List ℕ
  flags : List ℕ
  /-- Tree level only; empty otherwise. -/
  spanId : List ℕ
  parentSpanId : List ℕ
  traceId : List ℕ
  /-- Flattened `record index * group keys + key index`. -/
  groupIds : List ℕ
  deriving DecidableEq

namespace SampleChunk

def empty : SampleChunk := ⟨[], [], [], [], [], [], [], []⟩

def len (c : SampleChunk) : ℕ := c.nameId.length

/-- The pushes of `SampleTier::push`, column by column. -/
def push (c : SampleChunk) (level : SampleLevel) (r : SampleRecord) (groupIds : List ℕ) : SampleChunk where
  startNs := c.startNs ++ [r.startNs]
  endNs := c.endNs ++ [r.endNs]
  nameId := c.nameId ++ [r.nameId]
  flags := c.flags ++ [r.flags]
  spanId := if level.hasTree then c.spanId ++ [r.spanId] else c.spanId
  parentSpanId := if level.hasTree then c.parentSpanId ++ [r.parentSpanId] else c.parentSpanId
  traceId := if level.hasTree then c.traceId ++ [r.traceId] else c.traceId
  groupIds := c.groupIds ++ groupIds

/-- Record `i` of a chunk, its identity read only where the level has one. -/
def recordAt (tree : Bool) (c : SampleChunk) (i : ℕ) : SampleRecord where
  startNs := c.startNs.getD i 0
  endNs := c.endNs.getD i 0
  nameId := c.nameId.getD i 0
  flags := c.flags.getD i 0
  spanId := if tree then c.spanId.getD i 0 else 0
  parentSpanId := if tree then c.parentSpanId.getD i 0 else 0
  traceId := if tree then c.traceId.getD i 0 else 0

def records (tree : Bool) (c : SampleChunk) : List SampleRecord := (List.range c.len).map (c.recordAt tree)

/-- Every column a level reads has a place for every record. -/
structure Aligned (level : SampleLevel) (c : SampleChunk) : Prop where
  startNs : c.startNs.length = c.len
  endNs : c.endNs.length = c.len
  flags : c.flags.length = c.len
  spanId : level.hasTree → c.spanId.length = c.len
  parentSpanId : level.hasTree → c.parentSpanId.length = c.len
  traceId : level.hasTree → c.traceId.length = c.len

theorem aligned_empty (level : SampleLevel) : empty.Aligned level :=
  ⟨rfl, rfl, rfl, fun _ => rfl, fun _ => rfl, fun _ => rfl⟩

theorem Aligned.push {level : SampleLevel} {c : SampleChunk} (h : c.Aligned level) (r : SampleRecord)
    (groupIds : List ℕ) : (c.push level r groupIds).Aligned level := by
  have hlen : (c.push level r groupIds).len = c.len + 1 := by simp [SampleChunk.push, len]
  refine ⟨?_, ?_, ?_, fun ht => ?_, fun ht => ?_, fun ht => ?_⟩ <;> rw [hlen]
  · simp [SampleChunk.push, h.startNs]
  · simp [SampleChunk.push, h.endNs]
  · simp [SampleChunk.push, h.flags]
  · simp [SampleChunk.push, ht, h.spanId ht]
  · simp [SampleChunk.push, ht, h.parentSpanId ht]
  · simp [SampleChunk.push, ht, h.traceId ht]

/-- A column's last place is what was pushed, and the others stand. -/
theorem getD_push {α : Type} (l : List α) (x d : α) (i : ℕ) (hi : i ≤ l.length) :
    (l ++ [x]).getD i d = if i < l.length then l.getD i d else x := by
  by_cases h : i < l.length
  · rw [if_pos h, List.getD_append _ _ _ _ h]
  · have he : i = l.length := by omega
    rw [if_neg h, he, List.getD_append_right _ _ _ _ (le_refl _)]
    simp

theorem recordAt_push {level : SampleLevel} {c : SampleChunk} (h : c.Aligned level) (r : SampleRecord)
    (groupIds : List ℕ) (i : ℕ) (hi : i ≤ c.len) :
    (c.push level r groupIds).recordAt level.hasTree i =
      if i < c.len then c.recordAt level.hasTree i else r.atLevel level := by
  have hcol : ∀ {α : Type} {l : List α}, l.length = c.len → ∀ (x d : α),
      (l ++ [x]).getD i d = if i < c.len then l.getD i d else x := by
    intro α l hl x d
    rw [← hl] at hi ⊢
    exact getD_push l x d i hi
  unfold recordAt SampleChunk.push SampleRecord.atLevel
  simp only [hcol h.startNs, hcol h.endNs, hcol h.flags, hcol (l := c.nameId) rfl]
  cases ht : level.hasTree with
  | false => by_cases hlt : i < c.len <;> simp [hlt]
  | true =>
    simp only [if_true, hcol (h.spanId ht), hcol (h.parentSpanId ht), hcol (h.traceId ht)]
    by_cases hlt : i < c.len <;> simp [hlt]

theorem records_push {level : SampleLevel} {c : SampleChunk} (h : c.Aligned level) (r : SampleRecord)
    (groupIds : List ℕ) :
    (c.push level r groupIds).records level.hasTree = c.records level.hasTree ++ [r.atLevel level] := by
  have hlen : (c.push level r groupIds).len = c.len + 1 := by simp [SampleChunk.push, len]
  unfold records
  rw [hlen, List.range_succ, List.map_append, List.map_singleton, recordAt_push h r groupIds _ (le_refl _),
    if_neg (lt_irrefl _)]
  congr 1
  refine List.map_congr_left fun i hi => ?_
  have hlt := List.mem_range.mp hi
  rw [recordAt_push h r groupIds i (le_of_lt hlt), if_pos hlt]

end SampleChunk

/-! ### The tier -/

/-- The capped, chunked sample tier. -/
structure SampleTier where
  level : SampleLevel
  nGroupKeys : ℕ
  maxBytes : ℕ
  sealed : List SampleChunk
  active : SampleChunk
  retained : ℕ
  complete : Bool
  aligned : active.Aligned level

/-- A consistent view of the tier. -/
structure SampleSnapshot where
  level : SampleLevel
  nGroupKeys : ℕ
  sealed : List SampleChunk
  active : SampleChunk
  complete : Bool
  deriving DecidableEq

namespace SampleTier

def new (level : SampleLevel) (nGroupKeys maxBytes : ℕ) : SampleTier :=
  { level, nGroupKeys := min nGroupKeys maxGroupKeyColumns, maxBytes, sealed := [], active := .empty, retained := 0,
    complete := true, aligned := SampleChunk.aligned_empty level }

def bytesPerRecord (t : SampleTier) : ℕ := t.level.bytesPerRecord + t.nGroupKeys * bytesPerGroupKey

def chunkBytes (t : SampleTier) : ℕ := chunkRecords * t.bytesPerRecord

/-- How many chunks the budget affords, at least one. -/
def maxChunks (t : SampleTier) : ℕ := max (t.maxBytes / max t.chunkBytes 1) 1

/-- The active chunk is full and the budget affords no other. -/
def Full (t : SampleTier) : Prop := t.active.len ≥ chunkRecords ∧ t.sealed.length + 1 ≥ t.maxChunks

instance (t : SampleTier) : Decidable t.Full := inferInstanceAs (Decidable (_ ∧ _))

/-- Offer one record. Returns the tier and whether it was retained. -/
def push (t : SampleTier) (r : SampleRecord) (groupIds : List ℕ) : SampleTier × Bool :=
  if !t.level.hasSamples then (t, false)
  else if t.active.len ≥ chunkRecords then
    -- the budget is checked before a new chunk is paid for
    if t.sealed.length + 1 ≥ t.maxChunks then ({ t with complete := false }, false)
    else
      ({ t with
          sealed := t.sealed ++ [t.active]
          active := SampleChunk.empty.push t.level r groupIds
          retained := t.retained + 1
          aligned := (SampleChunk.aligned_empty t.level).push r groupIds }, true)
  else
    ({ t with
        active := t.active.push t.level r groupIds
        retained := t.retained + 1
        aligned := t.aligned.push r groupIds }, true)

def snapshot (t : SampleTier) : SampleSnapshot :=
  { level := t.level, nGroupKeys := t.nGroupKeys, sealed := t.sealed, active := t.active, complete := t.complete }

end SampleTier

/-- Every retained record, sealed chunks first. -/
def SampleSnapshot.records (s : SampleSnapshot) : List SampleRecord :=
  (s.sealed ++ [s.active]).flatMap (SampleChunk.records s.level.hasTree)

/-! ### What is retained -/

namespace SampleTier

theorem records_snapshot (t : SampleTier) :
    t.snapshot.records =
      t.sealed.flatMap (SampleChunk.records t.level.hasTree) ++ t.active.records t.level.hasTree := by
  simp [SampleSnapshot.records, snapshot]

theorem records_new (level : SampleLevel) (nGroupKeys maxBytes : ℕ) :
    (new level nGroupKeys maxBytes).snapshot.records = [] := rfl

/-- What a push can do at a level that has samples: refuse, when the budget
is spent, or retain. The limits never move. -/
theorem push_cases (t : SampleTier) (r : SampleRecord) (groupIds : List ℕ) (hs : t.level.hasSamples = true) :
    (t.push r groupIds).1.level = t.level ∧
    (t.Full ∧ (t.push r groupIds).1.Full ∧ (t.push r groupIds).1.complete = false ∧
        (t.push r groupIds).1.snapshot.records = t.snapshot.records ∨
      ¬ t.Full ∧ (t.push r groupIds).1.complete = t.complete ∧
        (t.push r groupIds).1.snapshot.records = t.snapshot.records ++ [r.atLevel t.level]) := by
  unfold push
  rw [if_neg (by simp [hs])]
  split
  · rename_i hactive
    split
    · rename_i hchunks
      exact ⟨rfl, .inl ⟨⟨hactive, hchunks⟩, ⟨hactive, hchunks⟩, rfl, rfl⟩⟩
    · rename_i hchunks
      refine ⟨rfl, .inr ⟨fun hf => hchunks hf.2, rfl, ?_⟩⟩
      rw [records_snapshot, records_snapshot]
      simp only [List.flatMap_append, List.flatMap_cons, List.flatMap_nil, List.append_nil]
      rw [SampleChunk.records_push (SampleChunk.aligned_empty t.level)]
      rfl
  · rename_i hactive
    refine ⟨rfl, .inr ⟨fun hf => hactive hf.1, rfl, ?_⟩⟩
    rw [records_snapshot, records_snapshot, List.append_assoc]
    exact congrArg _ (SampleChunk.records_push t.aligned r groupIds)

theorem push_scalar (t : SampleTier) (r : SampleRecord) (groupIds : List ℕ) (hs : t.level.hasSamples = false) :
    (t.push r groupIds).1 = t := by
  unfold push
  rw [if_pos (by simp [hs])]

/-- The tier holds a prefix of what it was offered, and says `complete` when
it is all of it. -/
structure Retains (t : SampleTier) (offered : List SampleRecord) : Prop where
  held : t.snapshot.records <+: offered.map (SampleRecord.atLevel t.level)
  complete_iff : t.level.hasSamples = true → (t.complete = true ↔ t.snapshot.records.length = offered.length)
  stuck : t.level.hasSamples = true → t.complete = false → t.Full

theorem retains_new (level : SampleLevel) (nGroupKeys maxBytes : ℕ) : (new level nGroupKeys maxBytes).Retains [] :=
  ⟨List.prefix_append [] _, fun _ => by rw [records_new]; exact ⟨fun _ => rfl, fun _ => rfl⟩, fun _ h => (nomatch h)⟩

/-- Retention never resumes: a push keeps the prefix a prefix. -/
theorem Retains.push {t : SampleTier} {offered : List SampleRecord} (h : t.Retains offered) (r : SampleRecord)
    (groupIds : List ℕ) : (t.push r groupIds).1.Retains (offered ++ [r]) := by
  cases hs : t.level.hasSamples with
  | false =>
    rw [push_scalar t r groupIds hs]
    refine ⟨?_, fun h' => ?_, fun h' => ?_⟩
    · rw [List.map_append]
      exact h.held.trans (List.prefix_append _ _)
    · rw [hs] at h'
      cases h'
    · rw [hs] at h'
      cases h'
  | true =>
    have hle := h.held.length_le
    rw [List.length_map] at hle
    obtain ⟨hlevel, ⟨-, hfull, hc, hrec⟩ | ⟨hnot, hc, hrec⟩⟩ := t.push_cases r groupIds hs
    · refine ⟨?_, fun _ => ?_, fun _ _ => hfull⟩
      · rw [hlevel, hrec, List.map_append]
        exact h.held.trans (List.prefix_append _ _)
      · rw [hc, hrec, List.length_append, List.length_singleton]
        constructor
        · intro hf
          cases hf
        · intro hf
          omega
    · have hcomplete : t.complete = true := by
        cases hf : t.complete with
        | true => rfl
        | false => exact absurd (h.stuck hs hf) hnot
      have hlen := (h.complete_iff hs).mp hcomplete
      have hall : t.snapshot.records = offered.map (SampleRecord.atLevel t.level) :=
        h.held.eq_of_length (by rw [List.length_map, hlen])
      refine ⟨?_, fun _ => ?_, fun _ hf => ?_⟩
      · rw [hlevel, hrec, hall, List.map_append]
        exact List.prefix_refl _
      · rw [hc, hcomplete, hrec, List.length_append, List.length_append, hlen]
        simp
      · rw [hc, hcomplete] at hf
        cases hf

end SampleTier

end Logmon
