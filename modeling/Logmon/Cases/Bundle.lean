/-
# A case in one file, or in several

`cases/bundle.rs`, and how `cases/write.rs` and `cases/load.rs` lay a case out:
the entries of one zip archive, or files beside each other, each under a name
made of the case's stem. How an archive is compressed is not of it: an entry is
its name, the size its header claims and its text.

Loose files are read back as they were written. A bundle is read back exactly
when none of its entries is past the ceiling that is there for archives from
elsewhere (`unpack_pack_iff`); one that was packed names nothing foreign and
claims the sizes it has.

Key definitions: `caseEntries`, `pack`, `unpack`, `readLoose`, `Archive`,
`writeArchive`, `loadArchive`.
Key theorems: `unpack_pack_iff`, `readLoose_written`, `loadArchive_written`.
-/
import Logmon.Cases.Create

namespace Logmon
namespace Cases

/-- `MAX_ENTRY_BYTES`: the ceiling on one entry, declared or actual. -/
def maxEntryBytes : ℕ := 512 * 1024 * 1024

/-- `<stem>.md`. -/
def documentName (stem : String) : String := stem ++ ".md"

/-- `<stem>.registry.json`. -/
def registryEntryName (stem : String) : String := stem ++ ".registry.json"

/-- The entries a bundle may hold. -/
def permitted (stem : String) : List String :=
  [documentName stem, logdataName stem, spandataName stem, registryEntryName stem]

/-- An entry of an archive, with the size its header claims. -/
structure BundleEntry where
  name : String
  size : ℕ
  text : List Char

inductive BundleError
  | zip (e : String)
  | missingEntry (name : String)
  | foreignEntry (name : String)
  deriving DecidableEq

/-- The files of a case under their names, in the order they are packed. -/
def caseEntries (files : CaseBytes) : List (String × List Char) :=
  (documentName files.stem, files.document) ::
    ((files.logdata.map fun text => (logdataName files.stem, text)).toList ++
      (files.spandata.map fun text => (spandataName files.stem, text)).toList ++
      (files.registry.map fun text => (registryEntryName files.stem, text)).toList)

/-- Write a bundle: every name must belong to the stem. -/
def pack (stem : String) : List (String × List Char) → Except BundleError (List BundleEntry)
  | [] => .ok []
  | (name, text) :: rest =>
    if name ∈ permitted stem then do
      let entries ← pack stem rest
      .ok (⟨name, textBytes text, text⟩ :: entries)
    else .error (.foreignEntry name)

/-- Read the entries of a bundle. The size a header claims is refused first,
and what it expands to is not believed either. -/
def readEntries (stem : String) : List BundleEntry → Except BundleError (List (String × List Char))
  | [] => .ok []
  | e :: rest =>
    if e.name ∉ permitted stem then .error (.foreignEntry e.name)
    else if maxEntryBytes < e.size then
      .error (.zip ("entry `" ++ e.name ++ "` declares " ++ toString e.size ++ " bytes, above the " ++
        toString maxEntryBytes ++ "-byte ceiling"))
    else if maxEntryBytes < textBytes e.text then
      .error (.zip ("entry `" ++ e.name ++ "` expands past the " ++ toString maxEntryBytes ++
        "-byte ceiling; a small entry that decompresses without bound is a bomb, not a case"))
    else do
      let found ← readEntries stem rest
      .ok ((e.name, e.text) :: found)

/-- The first text under a name. -/
def takeFile (found : List (String × List Char)) (name : String) : Option (List Char) :=
  (found.find? fun p => p.1 = name).map Prod.snd

/-- The files found under a stem's names; there is no case without a document. -/
def filesOf (stem : String) (found : List (String × List Char)) : Option CaseBytes :=
  (takeFile found (documentName stem)).map fun document =>
    { stem, document
      logdata := takeFile found (logdataName stem)
      spandata := takeFile found (spandataName stem)
      registry := takeFile found (registryEntryName stem) }

/-- Read a bundle. -/
def unpack (stem : String) (entries : List BundleEntry) : Except BundleError CaseBytes := do
  let found ← readEntries stem entries
  match filesOf stem found with
  | some files => .ok files
  | none => .error (.missingEntry (documentName stem))

/-- A case as loose files: the document, and whichever siblings exist. -/
def readLoose (stem : String) (dir : List (String × List Char)) : Option CaseBytes := filesOf stem dir

/-! ### What was written -/

/-- Each file of a case is under a name of its own. -/
theorem filesOf_caseEntries (files : CaseBytes) : filesOf files.stem (caseEntries files) = some files := by
  have hne : ∀ {a b : String}, a ≠ b → files.stem ++ a ≠ files.stem ++ b := by
    intro a b h heq
    refine h (String.ext ?_)
    simpa using congrArg String.toList heq
  have h1 : ".md" ≠ ".logdata.jsonl" := by decide
  have h2 : ".md" ≠ ".spandata.jsonl" := by decide
  have h3 : ".md" ≠ ".registry.json" := by decide
  have h4 : ".logdata.jsonl" ≠ ".spandata.jsonl" := by decide
  have h5 : ".logdata.jsonl" ≠ ".registry.json" := by decide
  have h6 : ".spandata.jsonl" ≠ ".registry.json" := by decide
  obtain ⟨stem, document, logdata, spandata, registry⟩ := files
  simp only at hne
  cases logdata <;> cases spandata <;> cases registry <;>
    simp [filesOf, caseEntries, takeFile, documentName, logdataName, spandataName, registryEntryName, hne h1, hne h2, hne h3,
      hne h4, hne h5, hne h6, hne h4.symm, hne h5.symm, hne h6.symm]

theorem readLoose_written (files : CaseBytes) : readLoose files.stem (caseEntries files) = some files :=
  filesOf_caseEntries files

theorem permitted_of_mem {files : CaseBytes} {p : String × List Char} (h : p ∈ caseEntries files) :
    p.1 ∈ permitted files.stem := by
  obtain ⟨stem, document, logdata, spandata, registry⟩ := files
  cases logdata <;> cases spandata <;> cases registry <;>
    simp only [caseEntries, Option.map_none, Option.map_some, Option.toList_none, Option.toList_some, List.nil_append,
      List.append_nil, List.cons_append, List.mem_cons, List.not_mem_nil, or_false] at h <;>
    rcases h with rfl | rfl | rfl | rfl <;> simp [permitted]

variable {stem : String}

/-- Names of the stem are packed, with the sizes the texts have. -/
theorem pack_permitted : ∀ {entries : List (String × List Char)}, (∀ p ∈ entries, p.1 ∈ permitted stem) →
    pack stem entries = .ok (entries.map fun p => ⟨p.1, textBytes p.2, p.2⟩)
  | [], _ => rfl
  | p :: rest, h => by
    have hrest := pack_permitted fun q hq => h q (List.mem_cons_of_mem _ hq)
    rw [pack, if_pos (h p List.mem_cons_self), hrest]
    rfl

/-- What was packed is read back exactly when no entry is past the ceiling. -/
theorem readEntries_packed : ∀ {entries : List (String × List Char)}, (∀ p ∈ entries, p.1 ∈ permitted stem) →
    ((∀ p ∈ entries, textBytes p.2 ≤ maxEntryBytes) ∧
        readEntries stem (entries.map fun p => ⟨p.1, textBytes p.2, p.2⟩) = .ok entries) ∨
      ∃ p ∈ entries, maxEntryBytes < textBytes p.2 ∧
        readEntries stem (entries.map fun p => ⟨p.1, textBytes p.2, p.2⟩) =
          .error (.zip ("entry `" ++ p.1 ++ "` declares " ++ toString (textBytes p.2) ++ " bytes, above the " ++
            toString maxEntryBytes ++ "-byte ceiling"))
  | [], _ => .inl ⟨by simp, rfl⟩
  | p :: rest, h => by
    have hname : ¬ p.1 ∉ permitted stem := not_not.mpr (h p List.mem_cons_self)
    rw [List.map_cons, readEntries, if_neg hname]
    by_cases hsize : maxEntryBytes < textBytes p.2
    · rw [if_pos hsize]
      exact .inr ⟨p, List.mem_cons_self, hsize, rfl⟩
    rw [if_neg hsize, if_neg hsize]
    rcases readEntries_packed fun q hq => h q (List.mem_cons_of_mem _ hq) with ⟨hall, hread⟩ | ⟨q, hq, hlarge, hread⟩
    · refine .inl ⟨List.forall_mem_cons.mpr ⟨Nat.le_of_not_lt hsize, hall⟩, ?_⟩
      rw [hread]
      rfl
    · refine .inr ⟨q, List.mem_cons_of_mem _ hq, hlarge, ?_⟩
      rw [hread]
      rfl

/-- **A packed case is read back exactly when none of its files is past the
ceiling.** -/
theorem unpack_pack_iff (files : CaseBytes) : ∃ entries, pack files.stem (caseEntries files) = .ok entries ∧
    ((∀ p ∈ caseEntries files, textBytes p.2 ≤ maxEntryBytes) ∧ unpack files.stem entries = .ok files ∨
      ∃ p ∈ caseEntries files, maxEntryBytes < textBytes p.2 ∧
        unpack files.stem entries = .error (.zip ("entry `" ++ p.1 ++ "` declares " ++ toString (textBytes p.2) ++
          " bytes, above the " ++ toString maxEntryBytes ++ "-byte ceiling"))) := by
  have hnames : ∀ p ∈ caseEntries files, p.1 ∈ permitted files.stem := fun p hp => permitted_of_mem hp
  refine ⟨_, pack_permitted hnames, ?_⟩
  unfold unpack
  rcases readEntries_packed hnames with ⟨hall, hread⟩ | ⟨p, hp, hlarge, hread⟩
  · refine .inl ⟨hall, ?_⟩
    rw [hread]
    simp only [bind, Except.bind, filesOf_caseEntries]
  · refine .inr ⟨p, hp, hlarge, ?_⟩
    rw [hread]
    rfl

/-! ### From a path -/

/-- What is at a path: a bundle, or a document with its siblings. -/
inductive Archive
  | bundle (entries : List BundleEntry)
  | loose (dir : List (String × List Char))

/-- Why an archive is refused before its case is looked at. -/
inductive ArchiveError
  | bundle (e : BundleError)
  | noDocument
  | load (e : LoadError)

/-- What a capture writes. -/
def writeArchive (separate : Bool) (files : CaseBytes) : Except BundleError Archive :=
  if separate then .ok (.loose (caseEntries files))
  else (pack files.stem (caseEntries files)).map .bundle

def readArchive (stem : String) : Archive → Except ArchiveError CaseBytes
  | .bundle entries => (unpack stem entries).mapError .bundle
  | .loose dir => (readLoose stem dir).elim (.error .noDocument) .ok

/-- `load`, of the case with that stem at a path. -/
def loadArchive (D : ReadEnv) (J : JsonEnv) (stem : String) (archive : Archive) : Except ArchiveError LoadedCase := do
  let bytes ← readArchive stem archive
  (load D J bytes).mapError .load

/-- The case's files can be read back: loose ones, or a bundle of none past the
ceiling. -/
def Readable (separate : Bool) (files : CaseBytes) : Prop :=
  separate = true ∨ ∀ p ∈ caseEntries files, textBytes p.2 ≤ maxEntryBytes

/-- **An archive that was written is loaded exactly when it can be read back
and its files load.** -/
theorem loadArchive_written (D : ReadEnv) (J : JsonEnv) (separate : Bool) (files : CaseBytes) :
    ∃ archive, writeArchive separate files = .ok archive ∧ ∀ c, loadArchive D J files.stem archive = .ok c ↔
      Readable separate files ∧ load D J files = .ok c := by
  have hok : ∀ {r : Except LoadError LoadedCase} {c}, r.mapError ArchiveError.load = .ok c ↔ r = .ok c := by
    intro r c
    cases r with
    | error e => exact ⟨(fun h => by cases h), fun h => by cases h⟩
    | ok x => exact ⟨fun h => by rw [Except.ok.inj h], fun h => by rw [Except.ok.inj h]; rfl⟩
  cases separate with
  | true =>
    refine ⟨_, rfl, fun c => ?_⟩
    have hread : readArchive files.stem (.loose (caseEntries files)) = .ok files := by
      show (readLoose files.stem (caseEntries files)).elim _ _ = _
      rw [readLoose_written]
      rfl
    unfold loadArchive
    rw [hread]
    exact hok.trans ⟨fun h => ⟨.inl rfl, h⟩, And.right⟩
  | false =>
    obtain ⟨entries, hpack, hunpack⟩ := unpack_pack_iff files
    refine ⟨.bundle entries, by unfold writeArchive; rw [hpack]; rfl, fun c => ?_⟩
    have hbytes : readArchive files.stem (.bundle entries) = (unpack files.stem entries).mapError .bundle := rfl
    unfold loadArchive
    rw [hbytes]
    rcases hunpack with ⟨hall, hread⟩ | ⟨p, hp, hlarge, hread⟩
    · rw [hread]
      exact hok.trans ⟨fun h => ⟨.inr hall, h⟩, And.right⟩
    · rw [hread]
      refine ⟨(fun h => by cases h), fun h => ?_⟩
      rcases h.1 with hsep | hall
      · cases hsep
      · exact absurd (hall p hp) (Nat.not_le.mpr hlarge)

end Cases
end Logmon
