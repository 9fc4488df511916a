/-
# The entries a case carries

`parse_data_entries` and `apply_case_data_entries` of `daemon/rpc_handler.rs`:
the `data` of a capture is read entry by entry. A path that is no text fails
the whole list; a malformed value or lifetime rejects its own entry. Keys with
a sigil stay with the document, the rest go to the registry as one batch.

Key definitions: `parseDataEntries`, `scopeEntry`, `splitEntries`,
`applyCaseDataEntries`, `caseBatch`.
Key theorems: `applyCaseDataEntries_registry`.
-/
import Logmon.Cases.Document
import Logmon.Daemon.Params
import Logmon.DomainData.Duration
import Logmon.DomainData.Store
import Logmon.Lib.Ascending

namespace Logmon
namespace Cases

open Lib DomainData

/-! ### Reading the list -/

/-- `parse_ttl`: a duration, or `false` to clear. `none` is a panic, inside
`parse_duration`. -/
def parseTtl : Rpc.Value → Option (Except TtlParseError (Option TtlSpec))
  | .null => some (.ok none)
  | .bool false => some (.ok (some .clear))
  | .string s => (parseDuration s).map fun parsed => parsed.map fun secs => some (.set secs)
  | _ => some (.error .malformed)

/-- An entry for the registry, or what it was rejected for before that. -/
inductive ParsedEntry
  | entry (d : DataEntry)
  | rejected (o : DataOutcome)

/-- The value of an entry; absent and `null` both leave what is held. -/
def entryValue : Option Rpc.Value → Except RejectReason (Option String)
  | none | some .null => .ok none
  | some (.string s) => .ok (some s)
  | some _ => .error .malformedValue

/-- One entry of the list, named by its index in an error. -/
def parseDataEntry (i : ℕ) (item : Rpc.Value) : Option (Except String ParsedEntry) :=
  match item.get? "path" with
  | some (.string path) =>
    match entryValue (item.get? "value") with
    | .error reason => some (.ok (.rejected ⟨path, .rejected reason⟩))
    | .ok value =>
      match (item.get? "ttl").elim (some (.ok none)) parseTtl with
      | none => none
      | some (.error _) => some (.ok (.rejected ⟨path, .rejected .malformedTtl⟩))
      | some (.ok ttl) => some (.ok (.entry ⟨path, value, ttl⟩))
  | none | some .null => some (.error s!"\x60entries[{i}]\x60 is missing \x60path\x60")
  | some other => some (.error s!"\x60entries[{i}].path\x60 must be a string, not {Rpc.jsonType other}")

/-- The entries from index `i` on, in order. -/
def parseItems : ℕ → List Rpc.Value → Option (Except String (List (ℕ × ParsedEntry)))
  | _, [] => some (.ok [])
  | i, item :: items =>
    match parseDataEntry i item with
    | none => none
    | some (.error e) => some (.error e)
    | some (.ok parsed) => (parseItems (i + 1) items).map fun rest => rest.map fun l => (i, parsed) :: l

def parseDataEntries (raw : Option Rpc.Value) : Option (Except String (List (ℕ × ParsedEntry))) :=
  match raw.bind Rpc.Value.asArray with
  | none => some (.error "entries is required and must be an array")
  | some [] => some (.error "entries must not be empty")
  | some items => parseItems 0 items

/-! ### The document's own entries -/

/-- The most sigilled keys of one call. -/
def maxSigilKeys : ℕ := 64

/-- `is_scoped`. -/
def isScoped (d : DataEntry) : Bool := d.path.toList.head? = some '@'

/-- `scope_one`: admit one sigilled entry, or say why it cannot be. -/
def scopeEntry (d : DataEntry) (facts : List ScopedFact) : Except RejectReason (List ScopedFact) :=
  match Key.parse d.path true with
  | .error err => .error err.reason
  | .ok key =>
    if isReserved key.path then .error .reservedPrefix
    else match d.value with
      | none => .error .malformedPath
      | some value =>
        if maxValueBytes < value.utf8ByteSize then .error .valueTooLong
        else if maxSigilKeys ≤ facts.length then .error .registryFull
        else .ok (scopeOne key.rendered value facts)

/-- The list taken apart: what goes to the registry, what is decided already,
and the document's facts. -/
structure SplitData where
  forRegistry : List (ℕ × DataEntry)
  decided : List (ℕ × DataOutcome)
  facts : List ScopedFact

/-- One parsed entry. -/
def splitEntry (s : SplitData) : ℕ × ParsedEntry → SplitData
  | (i, .rejected o) => { s with decided := s.decided ++ [(i, o)] }
  | (i, .entry d) =>
    if isScoped d then
      match scopeEntry d s.facts with
      | .ok facts => { s with decided := s.decided ++ [(i, ⟨d.path, .scoped⟩)], facts }
      | .error reason => { s with decided := s.decided ++ [(i, ⟨d.path, .rejected reason⟩)] }
    else { s with forRegistry := s.forRegistry ++ [(i, d)] }

def splitEntries (parsed : List (ℕ × ParsedEntry)) : SplitData := parsed.foldl splitEntry ⟨[], [], []⟩

/-! ### Applying it -/

/-- `merge_outcomes`: the outcomes in the caller's order. -/
def mergeOutcomes (applied : List DataOutcome) (indices : List ℕ) (decided : List (ℕ × DataOutcome)) : List DataOutcome :=
  (sortByKey Prod.fst (indices.zip applied ++ decided)).map Prod.snd

/-- What applying the entries reports. -/
structure AppliedData where
  outcomes : List DataOutcome
  persistError : Option String
  facts : List ScopedFact

/-- Absent and empty are the same request: nothing to record. -/
def noData : Option Rpc.Value → Bool
  | none | some (.array []) => true
  | _ => false

/-- The registry after the entries, and what they report; `saved` is what
writing the registry's file came to. No registry is a broker without one;
`none` is a panic. -/
def applyCaseDataEntries (registry : Option Registry) (raw : Option Rpc.Value) (now : ℤ) (saved : Except String Unit) :
    Option (Option Registry × Except String AppliedData) :=
  if noData raw then some (registry, .ok ⟨[], none, []⟩)
  else
    match registry with
    | none => some (none, .error "domain_data is not available on this broker")
    | some r =>
      match parseDataEntries raw with
      | none => none
      | some (.error e) => some (some r, .error e)
      | some (.ok parsed) =>
        let split := splitEntries parsed
        if split.forRegistry.isEmpty then some (some r, .ok ⟨mergeOutcomes [] [] split.decided, none, split.facts⟩)
        else
          let (r, applied) := r.update (split.forRegistry.map Prod.snd) now
          some (some r, .ok
            { outcomes := mergeOutcomes applied (split.forRegistry.map Prod.fst) split.decided
              persistError := match saved with
                | .ok () => none
                | .error e => some e
              facts := split.facts })

/-- The batch a request's entries put to the registry. -/
def caseBatch (raw : Option Rpc.Value) : List DataEntry :=
  match parseDataEntries raw with
  | some (.ok parsed) => (splitEntries parsed).forRegistry.map Prod.snd
  | _ => []

/-- The list is refused as a whole. -/
def DataRefused (raw : Option Rpc.Value) : Prop := noData raw = false ∧ ∃ e, parseDataEntries raw = some (.error e)

/-- Reading the list panics. -/
def DataPanics (raw : Option Rpc.Value) : Prop := noData raw = false ∧ parseDataEntries raw = none

/-- An absent or empty list has no batch. -/
theorem caseBatch_of_noData {raw : Option Rpc.Value} (h : noData raw = true) : caseBatch raw = [] := by
  unfold noData at h
  split at h
  · rfl
  · rfl
  · simp at h

/-- **What the entries can do to a registry**: nothing, where the list is
refused or reading it panics; else apply its batch. -/
theorem applyCaseDataEntries_registry (r : Registry) (raw : Option Rpc.Value) (now : ℤ) (saved : Except String Unit) :
    (DataPanics raw ∧ applyCaseDataEntries (some r) raw now saved = none) ∨
    (DataRefused raw ∧ ∃ e, applyCaseDataEntries (some r) raw now saved = some (some r, .error e)) ∨
    (¬ DataPanics raw ∧ ¬ DataRefused raw ∧ ∃ applied,
      applyCaseDataEntries (some r) raw now saved = some (some (r.update (caseBatch raw) now).1, .ok applied)) := by
  unfold applyCaseDataEntries DataPanics DataRefused
  cases hno : noData raw with
  | true =>
    refine .inr (.inr ⟨by simp, by simp, ⟨[], none, []⟩, ?_⟩)
    rw [caseBatch_of_noData hno]
    rfl
  | false =>
    unfold caseBatch
    cases hparse : parseDataEntries raw with
    | none => exact .inl ⟨⟨rfl, rfl⟩, rfl⟩
    | some parsed =>
      cases parsed with
      | error e => exact .inr (.inl ⟨⟨rfl, e, rfl⟩, e, rfl⟩)
      | ok parsed =>
        refine .inr (.inr ⟨by simp, by simp, ?_⟩)
        simp only [Bool.false_eq_true, ↓reduceIte]
        split
        · rename_i hempty
          rw [List.isEmpty_iff.mp hempty]
          exact ⟨_, rfl⟩
        · exact ⟨_, rfl⟩

end Cases
end Logmon
