/-
# The log pipeline of a domain

`engine/pipeline.rs` and `engine/seq_counter.rs`: a domain's ring, its
pre-trigger buffer, its seq counter (which its spans share) and its epoch log,
with the trigger events it has broadcast.

Key definitions: `PipelineEvent`, `LogPipeline`, `LogPipeline.clearLogs`.
-/
import Logmon.Engine.Epoch
import Logmon.Engine.PreBuffer
import Logmon.Store.Read

namespace Logmon

open Lib

/-- What a trigger that fired sends to its session. -/
structure PipelineEvent where
  sessionId : String
  triggerId : ℕ
  triggerDescription : Option String
  filterString : String
  matchedEntry : LogEntry
  contextBefore : List LogEntry
  preTriggerFlushed : ℕ
  preWindow : ℕ
  postWindowSize : ℕ
  notifyContext : ℕ
  oneshot : Bool
  traceId : Option ℕ
  deriving DecidableEq

structure LogPipeline where
  store : InMemoryStore
  preBuffer : PreTriggerBuffer
  /-- The seq most recently assigned. -/
  seq : ℕ
  epochs : EpochLog
  /-- The events broadcast so far. -/
  events : List PipelineEvent

namespace LogPipeline

/-- `new_with_seq_counter`: the epoch log opens where the counter stands. -/
def newWithSeq (capacity : ℕ) (h : capacity ≤ u64Max) (initialSeq : ℕ) : LogPipeline :=
  { store := .new capacity h, preBuffer := .new 0, seq := initialSeq, epochs := .new initialSeq, events := [] }

/-- `SeqCounter::next`. -/
def nextSeq (p : LogPipeline) : ℕ := (p.seq + 1) % 2 ^ 64

theorem nextSeq_le (p : LogPipeline) : p.nextSeq ≤ u64Max := by
  have : p.nextSeq < 2 ^ 64 := Nat.mod_lt _ (by decide)
  unfold u64Max
  omega

/-- Short of its end the counter counts up. -/
theorem nextSeq_eq {p : LogPipeline} (h : p.seq < u64Max) : p.nextSeq = p.seq + 1 := by
  unfold nextSeq
  unfold u64Max at h
  omega

/-- `assign_seq`. -/
def assignSeq (p : LogPipeline) : LogPipeline := { p with seq := p.nextSeq }

def appendToStore (p : LogPipeline) (e : LogEntry) : LogPipeline := { p with store := p.store.append e }

def insertSorted (p : LogPipeline) (batch : List LogEntry) : LogPipeline :=
  { p with store := p.store.insertSorted batch }

def containsSeq (p : LogPipeline) (seq : ℕ) : Bool := p.store.holds seq

def observe (p : LogPipeline) (seq : ℕ) (policy : FilterPolicy) : LogPipeline :=
  { p with epochs := p.epochs.observe seq policy }

def preBufferAppend (p : LogPipeline) (e : LogEntry) : LogPipeline := { p with preBuffer := p.preBuffer.append e }

def resizePreBuffer (p : LogPipeline) (size : ℕ) : LogPipeline := { p with preBuffer := p.preBuffer.resize size }

def sendEvent (p : LogPipeline) (event : PipelineEvent) : LogPipeline := { p with events := p.events ++ [event] }

/-- `clear_through` with a counter reading. -/
def clearThrough (p : LogPipeline) (newestAssigned : ℕ) : LogPipeline :=
  { p with store := p.store.clearThrough newestAssigned }

/-- `clear_logs`, and how many records it cleared. -/
def clearLogs (p : LogPipeline) : LogPipeline × ℕ := (p.clearThrough p.seq, p.store.entries.length)

end LogPipeline

end Logmon
