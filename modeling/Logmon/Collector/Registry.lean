/-
# The collector registry, one locked section at a time

`collector/registry.rs`: the armed collectors of the daemon under one lock,
and what a call does while it holds it. `add`, `reset` and `remove` hold the
lock once; `edit` checks, writes its file with no lock held and applies under
a second one; `snapshot` takes its window under one section and files it
under another. The sections are functions here; what runs between them is
`Logmon.Collector.Calls`.

Every owner is a named session (`handle_collectors_add` refuses an anonymous
one). A collector's id is its identity: names and owners are reused, ids are
not. Its counters are a handle, so that two pins to one domain are the same
counters.

Key definitions: `Entry`, `PersistedCollector`, `CollectorRegistry`,
`CollectorRegistry.add`, `CollectorRegistry.editCheck`,
`CollectorRegistry.editApply`, `CollectorRegistry.snapshotTake`,
`CollectorRegistry.snapshotFile`, `CollectorRegistry.remove`,
`CollectorRegistry.moveOwner`, `CollectorRegistry.detachSession`.
Key theorems: `add_ok`, `editCheck_ok`, `editApply_ok`, `snapshotTake_ok`.
-/
import Logmon.Collector.State
import Logmon.Lib.First

namespace Logmon

open Lib

/-! ### The file of a collector -/

/-- The version a file is written with, `FORMAT_VERSION`. -/
def formatVersion : ℕ := 1

structure PersistedThreshold where
  metric : String
  group : Option String
  op : String
  value : ℚ
  windowMs : ℕ
  deriving DecidableEq

def PersistedThreshold.of (t : Threshold) : PersistedThreshold :=
  { metric := t.metric.asStr, group := t.group, op := t.op.asStr, value := t.value, windowMs := t.windowMs }

/-- A recorded run on disk. Of the window's data the file keeps the total
tier; the window stands for it here. -/
structure PersistedSnapshot (W : Type) where
  label : String
  description : Option String
  metaText : String
  takenAt : ℤ
  windowStart : ℤ
  filter : String
  level : String
  groupKeys : List String
  maxSampleBytes : ℕ
  collectorDescription : Option String
  threshold : Option PersistedThreshold
  policyPerName : Bool
  policyPerGroup : Bool
  policyProjections : Bool
  window : W
  ingestDropped : Option ℕ
  ingestShedBatches : Option ℕ
  ingestMalformed : Option ℕ
  deriving DecidableEq

variable {W Span : Type}

def PersistedSnapshot.of (s : StoredSnapshot W) : PersistedSnapshot W :=
  { label := s.label, description := s.description, metaText := s.metaText, takenAt := s.takenAt,
    windowStart := s.windowStart, filter := s.defn.filterString, level := s.defn.level.asStr,
    groupKeys := s.defn.groupKeys, maxSampleBytes := s.defn.maxSampleBytes,
    collectorDescription := s.defn.description, threshold := s.defn.threshold.map PersistedThreshold.of,
    policyPerName := s.policy.perName, policyPerGroup := s.policy.perGroup,
    policyProjections := s.policy.projections, window := s.window,
    ingestDropped := s.ingest.map TraceIngestLoss.dropped,
    ingestShedBatches := s.ingest.map TraceIngestLoss.shedBatches,
    ingestMalformed := s.ingest.map TraceIngestLoss.malformed }

structure PersistedCollector (W : Type) where
  version : ℕ
  name : String
  owner : String
  domain : String
  filter : String
  level : String
  groupKeys : List String
  maxSampleBytes : ℕ
  description : Option String
  threshold : Option PersistedThreshold
  armedAt : ℤ
  snapshots : List (PersistedSnapshot W)
  nextAutoLabel : ℕ
  snapshotsEvicted : ℕ
  deriving DecidableEq

/-! ### Entries -/

/-- Why a live window is empty. -/
inductive ZeroedBy
  | edit
  | reset
  | snapshot
  | daemonRestart
  deriving DecidableEq

structure Entry (W : Type) where
  id : ℕ
  owner : SessionName
  domain : DomainId
  collector : Collector W
  /-- Which `ReceiverMetrics` it holds. -/
  metrics : ℕ
  ingestBaseline : TraceIngestLoss
  history : History W
  zeroedBy : Option ZeroedBy
  deriving DecidableEq

namespace Entry

def name (e : Entry W) : String := e.collector.defn.name

/-- What the entry keeps of the daemon-wide reservation. -/
def maxSampleBytes (e : Entry W) : ℕ := e.collector.defn.maxSampleBytes

/-- The file this entry would write under a different definition or pin. -/
def persistedWith (e : Entry W) (defn : CollectorDef) (domain : DomainId) : PersistedCollector W :=
  { version := formatVersion, name := defn.name, owner := e.owner.text, domain := domain.name,
    filter := defn.filterString, level := defn.level.asStr, groupKeys := defn.groupKeys,
    maxSampleBytes := defn.maxSampleBytes, description := defn.description,
    threshold := defn.threshold.map PersistedThreshold.of, armedAt := e.collector.armedAt,
    snapshots := e.history.snapshots.map PersistedSnapshot.of, nextAutoLabel := e.history.nextAuto,
    snapshotsEvicted := e.history.evicted }

def toPersisted (e : Entry W) : PersistedCollector W := e.persistedWith e.collector.defn e.domain

/-- `owner`'s collector called `name`. -/
def isNamed (owner : SessionName) (name : String) (e : Entry W) : Bool := e.owner == owner && e.name == name

/-- The collector `id`, where `owner` holds it. -/
def isHeld (id : ℕ) (owner : SessionName) (e : Entry W) : Bool := e.id == id && e.owner == owner

end Entry

/-- A requested change; `none` leaves a field alone. -/
structure CollectorEdit where
  description : Option String
  filter : Option String
  level : Option SampleLevel
  groupKeys : Option (List String)
  maxSampleBytes : Option ℕ
  domain : Option DomainId
  threshold : Option (Option Threshold)
  deriving DecidableEq

namespace CollectorEdit

/-- Changes nothing (`Default`). -/
def default : CollectorEdit :=
  { description := none, filter := none, level := none, groupKeys := none, maxSampleBytes := none, domain := none,
    threshold := none }

/-- Whether this edit changes what is collected. -/
def isStructural (c : CollectorEdit) (current : CollectorDef) : Bool :=
  c.filter.any (fun f => f != current.filterString) ||
    c.level.any (fun l => l != current.level) ||
    c.groupKeys.any (fun k => k != current.groupKeys) ||
    c.maxSampleBytes.any (fun b => b != current.maxSampleBytes) ||
    c.threshold.any (fun t => t != current.threshold)

end CollectorEdit

inductive RegistryError
  | duplicateName (name : String)
  | notFound (name : String)
  | budgetExceeded (requested remaining total : ℕ)
  | label (e : HistoryError)
  | policyRejected (message : String)
  | persistFailed (message : String)
  deriving DecidableEq

/-- Everything `snapshot` varies. -/
structure SnapshotRequest where
  name : String
  label : Option String
  description : Option String
  metaText : String
  policy : SnapshotPolicy
  reset : Bool
  now : ℤ
  deriving DecidableEq

/-- A snapshot without a reset, for the runs on fixed inputs. -/
def SnapshotRequest.plain (name : String) : SnapshotRequest :=
  { name, label := none, description := none, metaText := "{}", policy := ⟨true, true, true⟩, reset := false, now := 0 }

/-- An edit between its two sections: what the first found and built. The
source keeps all of it but `oldDef` and `reserved`, which are what the first
section read. -/
structure PendingEdit (W : Type) where
  id : ℕ
  owner : SessionName
  name : String
  defn : CollectorDef
  targetDomain : DomainId
  newMetrics : Option ℕ
  structural : Bool
  now : ℤ
  file : PersistedCollector W
  oldDef : CollectorDef
  reserved : ℕ
  deriving DecidableEq

structure EditOutcome (W : Type) where
  zeroed : Bool
  collector : Collector W
  domain : DomainId
  deriving DecidableEq

/-- A snapshot between its sections: the run taken, and whose it is. -/
structure TakenSnapshot (W : Type) where
  id : ℕ
  snap : StoredSnapshot W
  deriving DecidableEq

/-- File work a lifecycle change left for after the caller's locks. -/
structure PendingFiles where
  /-- Old owner, new owner, name, ledger seq at the move. -/
  moved : List (SessionName × SessionName × String × ℕ)
  /-- Owner, name, ledger seq at the detach. -/
  unlink : List (SessionName × String × ℕ)
  deriving DecidableEq

namespace PendingFiles

def empty : PendingFiles := ⟨[], []⟩

/-- Fold `other`'s work into this one. -/
def absorb (p other : PendingFiles) : PendingFiles := ⟨p.moved ++ other.moved, p.unlink ++ other.unlink⟩

end PendingFiles

/-- The armed collectors, the daemon-wide reservation and the next id. -/
structure CollectorRegistry (W : Type) where
  entries : List (Entry W)
  maxTotalSampleBytes : ℕ
  nextId : ℕ
  deriving DecidableEq

namespace CollectorRegistry

def withBudget (maxTotalSampleBytes : ℕ) : CollectorRegistry W := { entries := [], maxTotalSampleBytes, nextId := 1 }

/-- Bytes reserved by some entries. -/
def reservedBy (entries : List (Entry W)) : ℕ := (entries.map Entry.maxSampleBytes).sum

def reservedBytes (r : CollectorRegistry W) : ℕ := reservedBy r.entries

/-- The reservation check of `add` and `edit`. -/
def checkReservation (r : CollectorRegistry W) (reserved requested : ℕ) : Except RegistryError Unit :=
  if requested > r.maxTotalSampleBytes - reserved then
    .error (.budgetExceeded requested (r.maxTotalSampleBytes - reserved) r.maxTotalSampleBytes)
  else .ok ()

/-- The entry `add` pushes. -/
def armed (env : CollectorEnv W Span) (loss : ℕ → TraceIngestLoss) (r : CollectorRegistry W) (owner : SessionName)
    (domain : DomainId) (metrics : ℕ) (defn : CollectorDef) (now : ℤ) : Entry W :=
  { id := r.nextId, owner, domain, collector := .new env defn now, metrics, ingestBaseline := loss metrics,
    history := .new, zeroedBy := none }

/-- `add` under the lock: the entry pushed, whose file is to be written. -/
def add (env : CollectorEnv W Span) (loss : ℕ → TraceIngestLoss) (r : CollectorRegistry W) (owner : SessionName)
    (domain : DomainId) (metrics : ℕ) (defn : CollectorDef) (now : ℤ) :
    Except RegistryError (CollectorRegistry W × Entry W) :=
  if r.entries.any (Entry.isNamed owner defn.name) then .error (.duplicateName defn.name)
  else match r.checkReservation r.reservedBytes defn.maxSampleBytes with
    | .error e => .error e
    | .ok () => .ok ({ r with entries := r.entries ++ [r.armed env loss owner domain metrics defn now],
                              nextId := r.nextId + 1 },
                     r.armed env loss owner domain metrics defn now)

/-- An edited description; an empty one removes it. -/
def editDescription (old : Option String) : Option String → Option String
  | none => old
  | some d => if d.isEmpty then none else some d

/-- The definition an edit asks for. -/
def editDef (env : CollectorEnv W Span) (old : CollectorDef) (change : CollectorEdit) :
    Except RegistryError CollectorDef :=
  let defn := { old with
    description := editDescription old.description change.description
    level := change.level.getD old.level
    groupKeys := change.groupKeys.getD old.groupKeys
    threshold := change.threshold.getD old.threshold
    maxSampleBytes := change.maxSampleBytes.getD old.maxSampleBytes }
  match change.filter with
  | none => .ok defn
  | some f => match env.parseFilter f with
    | .error e => .error (.policyRejected ("invalid filter: " ++ e))
    | .ok parsed => .ok { defn with filter := parsed, filterString := f }

/-- Re-pinnable only while zeroed, or with the window discarded. -/
def editDomain (env : CollectorEnv W Span) (e : Entry W) (structural : Bool) :
    Option DomainId → Except RegistryError DomainId
  | none => .ok e.domain
  | some d =>
    if !e.collector.isZeroed env && !structural then
      .error (.policyRejected ("a collector can only be re-pinned to another domain while it is zeroed; " ++
        "snapshot or reset it first, so the recorded window and the domain it was measured on cannot disagree"))
    else .ok d

/-- Only a structural edit is checked against the reservation. -/
def editReservation (r : CollectorRegistry W) (structural : Bool) (reserved requested : ℕ) : Except RegistryError Unit :=
  if structural then r.checkReservation reserved requested else .ok ()

/-- `edit` under its first lock: nothing is changed, and the file is built. -/
def editCheck (env : CollectorEnv W Span) (r : CollectorRegistry W) (owner : SessionName) (name : String)
    (change : CollectorEdit) (newMetrics : Option ℕ) (now : ℤ) : Except RegistryError (PendingEdit W) :=
  match r.entries.find? (Entry.isNamed owner name) with
  | none => .error (.notFound name)
  | some e =>
    let structural := change.isStructural e.collector.defn
    let reserved := reservedBy (r.entries.eraseP (Entry.isNamed owner name))
    match editDef env e.collector.defn change with
    | .error err => .error err
    | .ok defn =>
      match r.editReservation structural reserved defn.maxSampleBytes with
      | .error err => .error err
      | .ok () =>
        match editDomain env e structural change.domain with
        | .error err => .error err
        | .ok targetDomain => .ok
            { id := e.id, owner, name, defn, targetDomain, newMetrics, structural, now,
              file := e.persistedWith defn targetDomain, oldDef := e.collector.defn, reserved }

/-- The entry an applied edit leaves. -/
def edited (env : CollectorEnv W Span) (loss : ℕ → TraceIngestLoss) (p : PendingEdit W) (e : Entry W) : Entry W :=
  let metrics := p.newMetrics.getD e.metrics
  if p.structural then
    { e with domain := p.targetDomain, metrics, collector := .new env p.defn p.now,
             ingestBaseline := loss metrics, zeroedBy := some .edit }
  else { e with domain := p.targetDomain, metrics, collector := e.collector.withDef p.defn }

/-- `edit` under its second lock, its file written: the change is applied to
the collector it was checked for. -/
def editApply (env : CollectorEnv W Span) (loss : ℕ → TraceIngestLoss) (r : CollectorRegistry W)
    (p : PendingEdit W) : Except RegistryError (CollectorRegistry W × EditOutcome W) :=
  match r.entries.find? (Entry.isHeld p.id p.owner) with
  | none => .error (.notFound p.name)
  | some e =>
    .ok ({ r with entries := modifyFirst (Entry.isHeld p.id p.owner) (edited env loss p) r.entries },
         { zeroed := p.structural, collector := (edited env loss p e).collector,
           domain := (edited env loss p e).domain })

/-- The entry a reset leaves. -/
def zeroed (env : CollectorEnv W Span) (loss : ℕ → TraceIngestLoss) (now : ℤ) (why : ZeroedBy) (e : Entry W) :
    Entry W :=
  { e with collector := e.collector.swap env now, ingestBaseline := loss e.metrics, zeroedBy := some why }

/-- Discard a collector's data and start a fresh window. -/
def reset (env : CollectorEnv W Span) (loss : ℕ → TraceIngestLoss) (r : CollectorRegistry W) (owner : SessionName)
    (name : String) (now : ℤ) : Except RegistryError (CollectorRegistry W × CollectorSnapshot W) :=
  match r.entries.find? (Entry.isNamed owner name) with
  | none => .error (.notFound name)
  | some e =>
    .ok ({ r with entries := modifyFirst (Entry.isNamed owner name) (zeroed env loss now .reset) r.entries },
         e.collector.snapshot)

/-- The entry step 1 of a snapshot leaves: its label reserved, and its window
swapped if the snapshot resets. -/
def takenFrom (env : CollectorEnv W Span) (loss : ℕ → TraceIngestLoss) (req : SnapshotRequest) (h : History W)
    (e : Entry W) : Entry W :=
  let e := { e with history := h }
  if req.reset then zeroed env loss req.now .snapshot e else e

/-- The run step 1 takes. -/
def runOf (loss : ℕ → TraceIngestLoss) (req : SnapshotRequest) (label : String) (e : Entry W) : StoredSnapshot W :=
  .fromView label req.description req.metaText req.now req.policy e.collector.snapshot
    (some ((loss e.metrics).since e.ingestBaseline))

/-- Step 1 of `snapshot`: reserve the label and take the data. -/
def snapshotTake (env : CollectorEnv W Span) (loss : ℕ → TraceIngestLoss) (r : CollectorRegistry W)
    (owner : SessionName) (req : SnapshotRequest) : Except RegistryError (CollectorRegistry W × TakenSnapshot W) :=
  match r.entries.find? (Entry.isNamed owner req.name) with
  | none => .error (.notFound req.name)
  | some e =>
    match req.policy.validate e.collector.defn.level with
    | .error m => .error (.policyRejected m)
    | .ok () =>
      match e.history.reserveLabel req.label with
      | .error err => .error (.label err)
      | .ok (label, h) =>
        .ok ({ r with entries := modifyFirst (Entry.isNamed owner req.name) (takenFrom env loss req h) r.entries },
             { id := e.id, snap := runOf loss req label e })

/-- The entry step 3 of a snapshot leaves. -/
def filed (snap : StoredSnapshot W) (e : Entry W) : Entry W := { e with history := e.history.push snap }

/-- Step 3 of `snapshot`: file the run under its collector, wherever that is
now, and build its file; `none` when it is gone. -/
def snapshotFile (r : CollectorRegistry W) (t : TakenSnapshot W) : CollectorRegistry W × Option (PersistedCollector W) :=
  match r.entries.find? (fun e => e.id == t.id) with
  | none => (r, none)
  | some e => ({ r with entries := modifyFirst (fun e => e.id == t.id) (filed t.snap) r.entries },
      some (filed t.snap e).toPersisted)

/-- `edit` with nobody in between: the write, which finds the collector
where it was, returned `written`. -/
def edit (env : CollectorEnv W Span) (loss : ℕ → TraceIngestLoss) (r : CollectorRegistry W) (owner : SessionName)
    (name : String) (change : CollectorEdit) (newMetrics : Option ℕ) (now : ℤ) (written : Except String Unit) :
    Except RegistryError (CollectorRegistry W × EditOutcome W) :=
  match r.editCheck env owner name change newMetrics now with
  | .error e => .error e
  | .ok p =>
    match written with
    | .error e =>
      .error (.persistFailed ("the edit was not applied because it could not be made durable: " ++ e))
    | .ok () => r.editApply env loss p

/-- `snapshot` with nobody in between. -/
def snapshot (env : CollectorEnv W Span) (loss : ℕ → TraceIngestLoss) (r : CollectorRegistry W)
    (owner : SessionName) (req : SnapshotRequest) : Except RegistryError (CollectorRegistry W × StoredSnapshot W) :=
  match r.snapshotTake env loss owner req with
  | .error e => .error e
  | .ok (r, t) => .ok ((r.snapshotFile t).1, t.snap)

/-- `remove` under the lock. -/
def remove (r : CollectorRegistry W) (owner : SessionName) (name : String) :
    Except RegistryError (CollectorRegistry W) :=
  if r.entries.any (Entry.isNamed owner name) then
    .ok { r with entries := r.entries.filter fun e => !Entry.isNamed owner name e }
  else .error (.notFound name)

/-- The in-memory half of `rename_owner`; `since` is the ledger's number under
the lock. -/
def moveOwner (r : CollectorRegistry W) (since : ℕ) (old new : SessionName) : CollectorRegistry W × PendingFiles :=
  if old = new then (r, .empty)
  else ({ r with entries := r.entries.map fun e => if e.owner = old then { e with owner := new } else e },
    { moved := (r.entries.filter fun e => e.owner = old).map fun e => (old, new, e.name, since), unlink := [] })

/-- The in-memory half of `drop_session`. -/
def detachSession (r : CollectorRegistry W) (since : ℕ) (owner : SessionName) : CollectorRegistry W × PendingFiles :=
  ({ r with entries := r.entries.filter fun e => e.owner ≠ owner },
    { moved := [], unlink := (r.entries.filter fun e => e.owner = owner).map fun e => (owner, e.name, since) })

/-- Offer one span to every collector pinned to `domain` whose filter
matches it. -/
def ingestSpan (env : CollectorEnv W Span) (r : CollectorRegistry W) (domain : DomainId) (span : Span) :
    CollectorRegistry W :=
  { r with entries := r.entries.map fun e =>
      if e.domain = domain ∧ env.matchesSpan e.collector.defn.filter span then
        { e with collector := e.collector.ingest env span }
      else e }

end CollectorRegistry

namespace Entry

theorem isNamed_iff {owner : SessionName} {name : String} {e : Entry W} :
    e.isNamed owner name = true ↔ e.owner = owner ∧ e.name = name := by
  simp [isNamed]

theorem isHeld_iff {id : ℕ} {owner : SessionName} {e : Entry W} :
    e.isHeld id owner = true ↔ e.id = id ∧ e.owner = owner := by
  simp [isHeld]

end Entry

namespace CollectorRegistry

/-! ### What each section does -/

variable {env : CollectorEnv W Span} {loss : ℕ → TraceIngestLoss} {r r' : CollectorRegistry W}
  {owner : SessionName} {name : String}

theorem checkReservation_ok {reserved requested : ℕ} (h : r.checkReservation reserved requested = .ok ()) :
    requested ≤ r.maxTotalSampleBytes - reserved := by
  unfold checkReservation at h
  split at h
  · simp at h
  · omega

theorem add_ok {domain : DomainId} {metrics : ℕ} {defn : CollectorDef} {now : ℤ} {e : Entry W}
    (h : r.add env loss owner domain metrics defn now = .ok (r', e)) :
    (∀ e' ∈ r.entries, ¬ (e'.owner = owner ∧ e'.name = defn.name)) ∧
      defn.maxSampleBytes ≤ r.maxTotalSampleBytes - r.reservedBytes ∧
      e = r.armed env loss owner domain metrics defn now ∧
      r' = { r with entries := r.entries ++ [e], nextId := r.nextId + 1 } := by
  unfold add at h
  split at h
  · simp at h
  rename_i hdup
  split at h
  · simp at h
  rename_i hfit
  simp only [Except.ok.injEq, Prod.mk.injEq] at h
  obtain ⟨rfl, rfl⟩ := h
  refine ⟨fun e' he' hn => hdup ?_, checkReservation_ok hfit, rfl, rfl⟩
  exact List.any_eq_true.mpr ⟨e', he', Entry.isNamed_iff.mpr hn⟩

/-- What a checked edit carries to its second section. -/
structure EditChecked (env : CollectorEnv W Span) (r : CollectorRegistry W) (owner : SessionName) (name : String)
    (change : CollectorEdit) (newMetrics : Option ℕ) (p : PendingEdit W) (e : Entry W) : Prop where
  found : r.entries.find? (Entry.isNamed owner name) = some e
  id : p.id = e.id
  ownerEq : p.owner = owner
  defName : p.defn.name = e.name
  oldDef : p.oldDef = e.collector.defn
  reserved : p.reserved = reservedBy (r.entries.eraseP (Entry.isNamed owner name))
  file : p.file = e.persistedWith p.defn p.targetDomain
  newMetrics : p.newMetrics = newMetrics
  structural : p.structural = change.isStructural e.collector.defn
  fits : p.structural = true → p.defn.maxSampleBytes ≤ r.maxTotalSampleBytes - p.reserved
  keeps : p.structural = false → p.defn.maxSampleBytes = p.oldDef.maxSampleBytes
  domain : editDomain env e p.structural change.domain = .ok p.targetDomain
  built : editDef env e.collector.defn change = .ok p.defn

theorem editDef_ok {old defn : CollectorDef} {change : CollectorEdit} (h : editDef env old change = .ok defn) :
    defn.name = old.name ∧ defn.maxSampleBytes = change.maxSampleBytes.getD old.maxSampleBytes := by
  unfold editDef at h
  split at h
  · obtain rfl := Except.ok.inj h
    exact ⟨rfl, rfl⟩
  · split at h
    · simp at h
    · obtain rfl := Except.ok.inj h
      exact ⟨rfl, rfl⟩

theorem editDomain_ok {e : Entry W} {structural : Bool} {o : Option DomainId} {d : DomainId}
    (h : editDomain env e structural o = .ok d) : d = o.getD e.domain := by
  unfold editDomain at h
  split at h
  · exact (Except.ok.inj h).symm
  · split at h
    · simp at h
    · exact (Except.ok.inj h).symm

theorem getD_maxSampleBytes {change : CollectorEdit} {old : CollectorDef} (h : change.isStructural old = false) :
    change.maxSampleBytes.getD old.maxSampleBytes = old.maxSampleBytes := by
  simp only [CollectorEdit.isStructural, Bool.or_eq_false_iff] at h
  cases hb : change.maxSampleBytes with
  | none => rfl
  | some b => simpa [hb] using h.1.2

theorem editCheck_ok {change : CollectorEdit} {newMetrics : Option ℕ} {now : ℤ} {p : PendingEdit W}
    (h : r.editCheck env owner name change newMetrics now = .ok p) :
    ∃ e, EditChecked env r owner name change newMetrics p e := by
  unfold editCheck at h
  split at h
  · simp at h
  rename_i e hfind
  split at h
  · simp at h
  rename_i defn hdef
  dsimp only at h
  split at h
  · simp at h
  rename_i hfit
  split at h
  · simp at h
  rename_i d hd
  obtain rfl := Except.ok.inj h
  obtain ⟨hname, hmax⟩ := editDef_ok hdef
  refine ⟨e, hfind, rfl, rfl, hname, rfl, rfl, rfl, rfl, rfl, fun hs => ?_, fun hs => ?_, hd, hdef⟩
  · rw [editReservation, if_pos hs] at hfit
    exact checkReservation_ok hfit
  · exact hmax.trans (getD_maxSampleBytes hs)

theorem editApply_ok {p : PendingEdit W} {out : EditOutcome W} (h : r.editApply env loss p = .ok (r', out)) :
    ∃ e, r.entries.find? (Entry.isHeld p.id p.owner) = some e ∧
      r' = { r with entries := modifyFirst (Entry.isHeld p.id p.owner) (edited env loss p) r.entries } := by
  unfold editApply at h
  split at h
  · simp at h
  · rename_i e he
    simp only [Except.ok.injEq, Prod.mk.injEq] at h
    exact ⟨e, he, h.1.symm⟩

theorem reset_ok {now : ℤ} {v : CollectorSnapshot W} (h : r.reset env loss owner name now = .ok (r', v)) :
    ∃ e, r.entries.find? (Entry.isNamed owner name) = some e ∧
      r' = { r with entries := modifyFirst (Entry.isNamed owner name) (zeroed env loss now .reset) r.entries } := by
  unfold reset at h
  split at h
  · simp at h
  · rename_i e he
    simp only [Except.ok.injEq, Prod.mk.injEq] at h
    exact ⟨e, he, h.1.symm⟩

theorem snapshotTake_ok {req : SnapshotRequest} {t : TakenSnapshot W}
    (h : r.snapshotTake env loss owner req = .ok (r', t)) :
    ∃ e label hist, r.entries.find? (Entry.isNamed owner req.name) = some e ∧
      e.history.reserveLabel req.label = .ok (label, hist) ∧ t = { id := e.id, snap := runOf loss req label e } ∧
      r' = { r with
        entries := modifyFirst (Entry.isNamed owner req.name) (takenFrom env loss req hist) r.entries } := by
  unfold snapshotTake at h
  split at h
  · simp at h
  rename_i e he
  split at h
  · simp at h
  split at h
  · simp at h
  rename_i label hist hl
  simp only [Except.ok.injEq, Prod.mk.injEq] at h
  exact ⟨e, label, hist, he, hl, h.2.symm, h.1.symm⟩

theorem remove_ok (h : r.remove owner name = .ok r') :
    r' = { r with entries := r.entries.filter fun e => !Entry.isNamed owner name e } := by
  unfold remove at h
  split at h
  · exact (Except.ok.inj h).symm
  · simp at h

/-! ### What the sections leave of an entry -/

section Kept

variable (p : PendingEdit W) (e : Entry W)

@[simp] theorem edited_id : (edited env loss p e).id = e.id := by unfold edited; split <;> rfl

@[simp] theorem edited_owner : (edited env loss p e).owner = e.owner := by unfold edited; split <;> rfl

@[simp] theorem edited_history : (edited env loss p e).history = e.history := by unfold edited; split <;> rfl

@[simp] theorem edited_defn : (edited env loss p e).collector.defn = p.defn := by unfold edited; split <;> rfl

@[simp] theorem edited_domain : (edited env loss p e).domain = p.targetDomain := by unfold edited; split <;> rfl

variable (req : SnapshotRequest) (h : History W)

@[simp] theorem takenFrom_id : (takenFrom env loss req h e).id = e.id := by unfold takenFrom; split <;> rfl

@[simp] theorem takenFrom_owner : (takenFrom env loss req h e).owner = e.owner := by unfold takenFrom; split <;> rfl

@[simp] theorem takenFrom_defn : (takenFrom env loss req h e).collector.defn = e.collector.defn := by
  unfold takenFrom; split <;> rfl

@[simp] theorem takenFrom_domain : (takenFrom env loss req h e).domain = e.domain := by
  unfold takenFrom; split <;> rfl

@[simp] theorem takenFrom_history : (takenFrom env loss req h e).history = h := by unfold takenFrom; split <;> rfl

end Kept

end CollectorRegistry

end Logmon
