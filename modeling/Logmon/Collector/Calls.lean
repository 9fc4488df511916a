/-
# Concurrent calls on the collector registry

Calls run side by side. What a call does while it holds the registry's lock
is one step (`Logmon.Collector.Registry`); a write or a delete of a file runs
outside that lock, under the lock of the file's path, and takes several steps
(`FileLedger`, `write_pausing`, `delete_pausing`): clone the path's lock out
of the map, acquire it, decide, save or delete, perhaps forget the map's
entry, release, drop the clone. Any call may take its next step at any time.

A path's lock is an object: the map and every call with a clone of it point
to it, and an entry is forgotten only when the map and the forgetting call are
the only two. A forgotten lock may still be held, by the call that forgot it,
while a new one is made for the path.

The `Ok`/`Err` a call returns to its caller changes nothing and is not kept;
an error ends the call. The file system is a map from paths to files, and a
file carries the id of the collector it was prepared from, which the bytes on
disk do not.

Key definitions: `Task`, `Hold`, `Call`, `Sys`, `Sys.step`, `Sys.CallStep`.
Key theorems: `Sys.step_cases`.
-/
import Logmon.Collector.Registry
import Logmon.Lib.FMap
import Logmon.Lib.Reach

namespace Logmon

open Lib

/-! ### What a call has to do -/

/-- A lifecycle change a caller makes before it finishes the file work. -/
inductive Lifecycle
  | moveOwner (old new : SessionName)
  | detachSession (owner : SessionName)
  deriving DecidableEq

/-- A locked section of a call, or a file job. -/
inductive Task (W : Type)
  | add (owner : SessionName) (domain : DomainId) (metrics : ℕ) (defn : CollectorDef) (now : ℤ)
  | editCheck (owner : SessionName) (name : String) (change : CollectorEdit) (newMetrics : Option ℕ) (now : ℤ)
  | editApply (p : PendingEdit W)
  | snapshotTake (owner : SessionName) (req : SnapshotRequest)
  | snapshotFile (t : TakenSnapshot W)
  | reset (owner : SessionName) (name : String) (now : ℤ)
  | remove (owner : SessionName) (name : String)
  /-- The changes still to make, and the file work of those made. -/
  | lifecycle (changes : List Lifecycle) (pending : PendingFiles)
  /-- `finish`, for one collector that moved. -/
  | rewrite (old new : SessionName) (name : String) (since : ℕ)
  | write (id : ℕ) (file : PersistedCollector W)
  | delete (owner : SessionName) (name : String) (since : ℕ)

/-- A call as its caller makes it. `rename_owner` is one move and
`drop_session` one detach; a session renamed onto a stale one is a detach and
a move, finished together. -/
inductive Request
  | add (owner : SessionName) (domain : DomainId) (metrics : ℕ) (defn : CollectorDef) (now : ℤ)
  | edit (owner : SessionName) (name : String) (change : CollectorEdit) (newMetrics : Option ℕ) (now : ℤ)
  | snapshot (owner : SessionName) (req : SnapshotRequest)
  | reset (owner : SessionName) (name : String) (now : ℤ)
  | remove (owner : SessionName) (name : String)
  | lifecycle (changes : List Lifecycle)

variable {W Span P : Type}

def Request.task : Request → Task W
  | .add owner domain metrics defn now => .add owner domain metrics defn now
  | .edit owner name change newMetrics now => .editCheck owner name change newMetrics now
  | .snapshot owner req => .snapshotTake owner req
  | .reset owner name now => .reset owner name now
  | .remove owner name => .remove owner name
  | .lifecycle changes => .lifecycle changes .empty

/-- Where a call stands with the lock of its file's path. -/
inductive Hold (P : Type)
  | none
  /-- It has a clone of the lock. -/
  | waiting (lock : ℕ)
  /-- It has acquired it. -/
  | held (lock : ℕ)
  /-- A write that found its collector live, and its place in the order. -/
  | stamped (lock stamp : ℕ)
  /-- Its work is done, and the path's entry may be forgotten. -/
  | forgetting (lock : ℕ) (path : P)
  | leaving (lock : ℕ)
  /-- Released, the clone not yet dropped. -/
  | dropping (lock : ℕ)
  deriving DecidableEq

/-- The lock a call has a clone of. -/
def Hold.lock? : Hold P → Option ℕ
  | .none => Option.none
  | .waiting l => some l
  | .held l => some l
  | .stamped l _ => some l
  | .forgetting l _ => some l
  | .leaving l => some l
  | .dropping l => some l

structure Call (W P : Type) where
  tasks : List (Task W)
  hold : Hold P

/-- The call has returned. -/
def Call.Returned (c : Call W P) : Prop := c.tasks = [] ∧ c.hold = .none

instance [DecidableEq P] (c : Call W P) : Decidable c.Returned :=
  inferInstanceAs (Decidable (c.tasks = [] ∧ c.hold = .none))

/-- A file on disk and the collector it was prepared from. -/
structure DiskFile (W : Type) where
  preparedFrom : ℕ
  file : PersistedCollector W
  deriving DecidableEq

/-- The registry, the domains' counters, the file ledger, the directory and
the calls in flight. -/
structure Sys (W P : Type) where
  reg : CollectorRegistry W
  metrics : ℕ → ReceiverMetrics
  seq : ℕ
  /-- The map of the ledger, from a path to its lock. -/
  paths : FMap P ℕ
  /-- What each lock guards: the number of its path's last write. -/
  last : ℕ → ℕ
  busy : ℕ → Bool
  nextLock : ℕ
  disk : P → Option (DiskFile W)
  calls : List (Call W P)

namespace Sys

/-- No call made yet, and nothing in the ledger. -/
def start (reg : CollectorRegistry W) (metrics : ℕ → ReceiverMetrics) (disk : P → Option (DiskFile W)) : Sys W P :=
  { reg, metrics, seq := 0, paths := ∅, last := fun _ => 0, busy := fun _ => false, nextLock := 0, disk,
    calls := [] }

/-- Each counter's reading. -/
def loss (s : Sys W P) (m : ℕ) : TraceIngestLoss := (s.metrics m).traceIngestLoss

def setCall (s : Sys W P) (i : ℕ) (tasks : List (Task W)) (hold : Hold P) : Sys W P :=
  { s with calls := s.calls.set i ⟨tasks, hold⟩ }

/-! ### The sections under the registry's lock -/

/-- One lifecycle change, its file work left in the result. -/
def change (r : CollectorRegistry W) (seq : ℕ) : Lifecycle → CollectorRegistry W × PendingFiles
  | .moveOwner old new => r.moveOwner seq old new
  | .detachSession owner => r.detachSession seq owner

/-- `finish`, as the list of its jobs. -/
def finish (p : PendingFiles) : List (Task W) :=
  p.moved.map (fun m => .rewrite m.1 m.2.1 m.2.2.1 m.2.2.2) ++ p.unlink.map fun u => .delete u.1 u.2.1 u.2.2

/-- A section: the registry after it and what the call then has to do in its
place. An error leaves both nothing to change and nothing to do. -/
def locked (env : CollectorEnv W Span) (s : Sys W P) : Task W → CollectorRegistry W × List (Task W)
  | .add owner domain metrics defn now =>
    match s.reg.add env s.loss owner domain metrics defn now with
    | .error _ => (s.reg, [])
    | .ok (r, e) => (r, [.write e.id e.toPersisted])
  | .editCheck owner name change newMetrics now =>
    match s.reg.editCheck env owner name change newMetrics now with
    | .error _ => (s.reg, [])
    | .ok p => (s.reg, [.write p.id p.file, .editApply p])
  | .editApply p =>
    match s.reg.editApply env s.loss p with
    | .error _ => (s.reg, [])
    | .ok (r, _) => (r, [])
  | .snapshotTake owner req =>
    match s.reg.snapshotTake env s.loss owner req with
    | .error _ => (s.reg, [])
    | .ok (r, t) => (r, [.snapshotFile t])
  | .snapshotFile t =>
    match s.reg.snapshotFile t with
    | (r, none) => (r, [])
    | (r, some file) => (r, [.write t.id file])
  | .reset owner name now =>
    match s.reg.reset env s.loss owner name now with
    | .error _ => (s.reg, [])
    | .ok (r, _) => (r, [])
  | .remove owner name =>
    match s.reg.remove owner name with
    | .error _ => (s.reg, [])
    | .ok r => (r, [.delete owner name s.seq])
  | .lifecycle [] pending => (s.reg, finish pending)
  | .lifecycle (c :: cs) pending =>
    ((change s.reg s.seq c).1, [.lifecycle cs (pending.absorb (change s.reg s.seq c).2)])
  | .rewrite old new name since =>
    match s.reg.entries.find? (Entry.isNamed new name) with
    | none => (s.reg, [.delete old name since])
    | some e => (s.reg, [.write e.id e.toPersisted, .delete old name since])
  | .write id file => (s.reg, [.write id file])
  | .delete owner name since => (s.reg, [.delete owner name since])

/-! ### The file jobs -/

variable [DecidableEq P] (path : String → String → P)

/-- The path a file job works on. -/
def jobPath : Task W → Option P
  | .write _ file => some (path file.owner file.name)
  | .delete owner name _ => some (path owner.text name)
  | _ => none

/-- `path_lock`: the clone a call gets, the lock made first when the path has
none. -/
def pathLock (s : Sys W P) (i : ℕ) (tasks : List (Task W)) (p : P) : Sys W P :=
  match s.paths.get? p with
  | some l => s.setCall i tasks (.waiting l)
  | none => { s with paths := s.paths.insert p s.nextLock, nextLock := s.nextLock + 1,
                     last := Function.update s.last s.nextLock 0,
                     busy := Function.update s.busy s.nextLock false,
                     calls := s.calls.set i ⟨tasks, .waiting s.nextLock⟩ }

/-- A call gets its clone, and nothing that is armed or on disk changes. -/
theorem pathLock_frame (s : Sys W P) (i : ℕ) (tasks : List (Task W)) (p : P) :
    ∃ l, (s.pathLock i tasks p).calls = s.calls.set i ⟨tasks, .waiting l⟩ ∧ (s.pathLock i tasks p).reg = s.reg ∧
      (s.pathLock i tasks p).seq = s.seq ∧ (s.pathLock i tasks p).disk = s.disk := by
  unfold pathLock
  split <;> exact ⟨_, rfl, rfl, rfl, rfl⟩

/-- `Arc::strong_count`: the map's entry and the calls' clones. -/
def strongCount (s : Sys W P) (l : ℕ) : ℕ :=
  s.paths.entries.countP (fun q => q.2 = l) + s.calls.countP fun c => c.hold.lock? = some l

/-- What a call does next after a write that found its collector gone: an
edit reports it gone, the others go on. -/
def afterGone : List (Task W) → List (Task W)
  | .editApply _ :: rest => rest
  | rest => rest

/-- What a call does next after a write that failed: an edit is refused, and
a moved collector keeps its old file. -/
def afterFailed : List (Task W) → List (Task W)
  | .editApply _ :: rest => rest
  | .delete _ _ _ :: rest => rest
  | rest => rest

/-- A write under its path's lock: take a place in the order if the collector
is where the file was prepared for. -/
def writeDecide (s : Sys W P) (i l id : ℕ) (file : PersistedCollector W) (rest : List (Task W)) : Sys W P :=
  if s.reg.entries.any fun e => e.id == id && e.owner.text == file.owner then
    { s with seq := s.seq + 1, calls := s.calls.set i ⟨.write id file :: rest, .stamped l (s.seq + 1)⟩ }
  else s.setCall i (afterGone rest)
    (if s.last l = 0 then .forgetting l (path file.owner file.name) else .leaving l)

/-- The save of a stamped write. -/
def writeSave (s : Sys W P) (i l stamp id : ℕ) (file : PersistedCollector W) (rest : List (Task W)) (ok : Bool) :
    Sys W P :=
  if ok then
    { s with disk := Function.update s.disk (path file.owner file.name) (some ⟨id, file⟩),
             last := Function.update s.last l stamp, calls := s.calls.set i ⟨rest, .leaving l⟩ }
  else s.setCall i (afterFailed rest) (.leaving l)

/-- A delete under its path's lock: not the bytes of a write ordered after
it was decided. -/
def deleteDecide (s : Sys W P) (i l : ℕ) (owner : SessionName) (name : String) (since : ℕ) (rest : List (Task W))
    (ok : Bool) : Sys W P :=
  if s.last l > since then s.setCall i rest (.leaving l)
  else if ok then
    { s with disk := Function.update s.disk (path owner.text name) none,
             calls := s.calls.set i ⟨rest, .forgetting l (path owner.text name)⟩ }
  else s.setCall i rest (.leaving l)

/-- `forget_if_unused`. -/
def forget (s : Sys W P) (i l : ℕ) (tasks : List (Task W)) (p : P) : Sys W P :=
  { s with paths := if s.strongCount l = 2 then s.paths.erase p else s.paths,
           calls := s.calls.set i ⟨tasks, .leaving l⟩ }

/-! ### The steps -/

/-- The next step of a call; `ok` says whether a save or a delete succeeds. -/
def stepCall (env : CollectorEnv W Span) (s : Sys W P) (i : ℕ) (c : Call W P) (ok : Bool) : Option (Sys W P) :=
  match c.hold, c.tasks with
  | .none, [] => none
  | .none, t :: rest =>
    match jobPath path t with
    | some p => some (s.pathLock i (t :: rest) p)
    | none => some { s with reg := (s.locked env t).1, calls := s.calls.set i ⟨(s.locked env t).2 ++ rest, .none⟩ }
  | .waiting l, tasks =>
    if s.busy l then none
    else some { s with busy := Function.update s.busy l true, calls := s.calls.set i ⟨tasks, .held l⟩ }
  | .held l, .write id file :: rest => some (s.writeDecide path i l id file rest)
  | .held l, .delete owner name since :: rest => some (s.deleteDecide path i l owner name since rest ok)
  | .stamped l stamp, .write id file :: rest => some (s.writeSave path i l stamp id file rest ok)
  | .forgetting l p, tasks => some (s.forget i l tasks p)
  | .leaving l, tasks =>
    some { s with busy := Function.update s.busy l false, calls := s.calls.set i ⟨tasks, .dropping l⟩ }
  | .dropping _, tasks => some (s.setCall i tasks .none)
  | _, _ => none

/-- What can happen next: a call is made, a call takes its next step, a
counter moves, a span arrives. -/
inductive Action (Span : Type)
  | call (req : Request)
  | step (i : ℕ) (ok : Bool)
  | lose (metrics : ℕ) (kind : LossKind) (transport : TraceTransport)
  | span (domain : DomainId) (span : Span)

def step (env : CollectorEnv W Span) (s : Sys W P) : Action Span → Option (Sys W P)
  | .call req => some { s with calls := s.calls ++ [⟨[req.task], .none⟩] }
  | .step i ok =>
    match s.calls[i]? with
    | none => none
    | some c => s.stepCall path env i c ok
  | .lose m k t => some { s with metrics := Function.update s.metrics m ((s.metrics m).record k t) }
  | .span domain span => some { s with reg := s.reg.ingestSpan env domain span }

/-! ### A call's step by its kind -/

/-- Each kind of step of a call, with the state it leads to. -/
inductive CallStep (env : CollectorEnv W Span) (path : String → String → P) (s : Sys W P) (i : ℕ) :
    Call W P → Bool → Sys W P → Prop
  | locked {t : Task W} {rest : List (Task W)} {ok : Bool} (h : jobPath path t = none) :
    CallStep env path s i ⟨t :: rest, .none⟩ ok
      { s with reg := (s.locked env t).1, calls := s.calls.set i ⟨(s.locked env t).2 ++ rest, .none⟩ }
  | lock {t : Task W} {rest : List (Task W)} {p : P} {ok : Bool} (h : jobPath path t = some p) :
    CallStep env path s i ⟨t :: rest, .none⟩ ok (s.pathLock i (t :: rest) p)
  | acquire {tasks : List (Task W)} {l : ℕ} {ok : Bool} (h : s.busy l = false) :
    CallStep env path s i ⟨tasks, .waiting l⟩ ok
      { s with busy := Function.update s.busy l true, calls := s.calls.set i ⟨tasks, .held l⟩ }
  | decideWrite {l id : ℕ} {file : PersistedCollector W} {rest : List (Task W)} {ok : Bool} :
    CallStep env path s i ⟨.write id file :: rest, .held l⟩ ok (s.writeDecide path i l id file rest)
  | decideDelete {l since : ℕ} {owner : SessionName} {name : String} {rest : List (Task W)} {ok : Bool} :
    CallStep env path s i ⟨.delete owner name since :: rest, .held l⟩ ok
      (s.deleteDecide path i l owner name since rest ok)
  | save {l stamp id : ℕ} {file : PersistedCollector W} {rest : List (Task W)} {ok : Bool} :
    CallStep env path s i ⟨.write id file :: rest, .stamped l stamp⟩ ok (s.writeSave path i l stamp id file rest ok)
  | forget {tasks : List (Task W)} {l : ℕ} {p : P} {ok : Bool} :
    CallStep env path s i ⟨tasks, .forgetting l p⟩ ok (s.forget i l tasks p)
  | release {tasks : List (Task W)} {l : ℕ} {ok : Bool} :
    CallStep env path s i ⟨tasks, .leaving l⟩ ok
      { s with busy := Function.update s.busy l false, calls := s.calls.set i ⟨tasks, .dropping l⟩ }
  | drop {tasks : List (Task W)} {l : ℕ} {ok : Bool} :
    CallStep env path s i ⟨tasks, .dropping l⟩ ok (s.setCall i tasks .none)

theorem callStep_of_stepCall {env : CollectorEnv W Span} {s s' : Sys W P} {i : ℕ} {c : Call W P} {ok : Bool}
    (h : s.stepCall path env i c ok = some s') : CallStep env path s i c ok s' := by
  obtain ⟨tasks, hold⟩ := c
  unfold stepCall at h
  split at h
  all_goals rename_i htasks hhold
  all_goals simp only at htasks hhold
  all_goals try subst htasks
  all_goals try subst hhold
  · simp at h
  · split at h
    · rename_i hp
      obtain rfl := Option.some.inj h
      exact .lock hp
    · rename_i hp
      obtain rfl := Option.some.inj h
      exact .locked hp
  · split at h
    · simp at h
    · rename_i hb
      obtain rfl := Option.some.inj h
      exact .acquire (by simpa using hb)
  · obtain rfl := Option.some.inj h
    exact .decideWrite
  · obtain rfl := Option.some.inj h
    exact .decideDelete
  · obtain rfl := Option.some.inj h
    exact .save
  · obtain rfl := Option.some.inj h
    exact .forget
  · obtain rfl := Option.some.inj h
    exact .release
  · obtain rfl := Option.some.inj h
    exact .drop
  · simp at h

theorem mem_afterGone {rest : List (Task W)} {t : Task W} (h : t ∈ afterGone rest) : t ∈ rest := by
  unfold afterGone at h
  split at h
  · exact List.mem_cons_of_mem _ h
  · exact h

theorem mem_afterFailed {rest : List (Task W)} {t : Task W} (h : t ∈ afterFailed rest) : t ∈ rest := by
  unfold afterFailed at h
  split at h
  · exact List.mem_cons_of_mem _ h
  · exact List.mem_cons_of_mem _ h
  · exact h

/-- A step of a call is a section, or leaves the registry and only drops
tasks. -/
theorem CallStep.locked_or_quiet {path : String → String → P} {env : CollectorEnv W Span} {s s' : Sys W P} {i : ℕ}
    {c : Call W P} {ok : Bool} (h : CallStep env path s i c ok s') :
    (∃ t rest, c = ⟨t :: rest, .none⟩ ∧ jobPath path t = none ∧ s'.reg = (s.locked env t).1 ∧
      s'.calls = s.calls.set i ⟨(s.locked env t).2 ++ rest, .none⟩) ∨
    (s'.reg = s.reg ∧ ∃ c', s'.calls = s.calls.set i c' ∧ ∀ t ∈ c'.tasks, t ∈ c.tasks) := by
  cases h with
  | locked hjob => exact .inl ⟨_, _, rfl, hjob, rfl, rfl⟩
  | lock _ =>
    unfold pathLock
    split <;> exact .inr ⟨rfl, _, rfl, fun t ht => ht⟩
  | acquire _ => exact .inr ⟨rfl, _, rfl, fun t ht => ht⟩
  | decideWrite =>
    unfold writeDecide
    split
    · exact .inr ⟨rfl, _, rfl, fun t ht => ht⟩
    · exact .inr ⟨rfl, _, rfl, fun t ht => List.mem_cons_of_mem _ (mem_afterGone ht)⟩
  | decideDelete =>
    unfold deleteDecide
    split
    · exact .inr ⟨rfl, _, rfl, fun t ht => List.mem_cons_of_mem _ ht⟩
    · split <;> exact .inr ⟨rfl, _, rfl, fun t ht => List.mem_cons_of_mem _ ht⟩
  | save =>
    unfold writeSave
    split
    · exact .inr ⟨rfl, _, rfl, fun t ht => List.mem_cons_of_mem _ ht⟩
    · exact .inr ⟨rfl, _, rfl, fun t ht => List.mem_cons_of_mem _ (mem_afterFailed ht)⟩
  | forget => exact .inr ⟨rfl, _, rfl, fun t ht => ht⟩
  | release => exact .inr ⟨rfl, _, rfl, fun t ht => ht⟩
  | drop => exact .inr ⟨rfl, _, rfl, fun t ht => ht⟩

/-- Each kind of step of the system. -/
theorem step_cases {env : CollectorEnv W Span} {s s' : Sys W P} {a : Action Span} (h : s.step path env a = some s') :
    (∃ req, a = .call req ∧ s' = { s with calls := s.calls ++ [⟨[req.task], .none⟩] }) ∨
      (∃ i ok c, a = .step i ok ∧ s.calls[i]? = some c ∧ CallStep env path s i c ok s') ∨
      (∃ m k t, a = .lose m k t ∧ s' = { s with metrics := Function.update s.metrics m ((s.metrics m).record k t) }) ∨
      ∃ d sp, a = .span d sp ∧ s' = { s with reg := s.reg.ingestSpan env d sp } := by
  cases a with
  | call req => exact .inl ⟨req, rfl, (Option.some.inj h).symm⟩
  | step i ok =>
    simp only [step] at h
    split at h
    · simp at h
    · rename_i c hc
      exact .inr (.inl ⟨i, ok, c, rfl, hc, callStep_of_stepCall path h⟩)
  | lose m k t => exact .inr (.inr (.inl ⟨m, k, t, rfl, (Option.some.inj h).symm⟩))
  | span d sp => exact .inr (.inr (.inr ⟨d, sp, rfl, (Option.some.inj h).symm⟩))

end Sys

end Logmon
