/-
# Writing a case document's front matter

`cases/document.rs`: what the renderer is given, and the block of keys it opens
a document with. `yamlStr` is the double-quoted scalar of
`collector/document.rs`. The sections after the block quote nothing back to the
loader, so a document is the block and any text (`render`).

Key definitions: `CaseInput`, `yamlStr`, `coreCoverage`, `frontMatter`,
`render`.
-/
import Logmon.Cases.Read

namespace Logmon
namespace Cases

open Lib

/-! ### What the renderer is given -/

/-- How the anchor was named. -/
inductive AnchorKind
  | seq
  | bookmark
  | traceId
  deriving DecidableEq

/-- The tag of an anchor. -/
def AnchorKind.word : AnchorKind → String
  | .seq => "seq"
  | .bookmark => "bookmark"
  | .traceId => "trace_id"

/-- How the anchor was named, and what it resolved to. -/
structure Anchor where
  kind : AnchorKind
  label : String
  seq : ℕ
  time : ℤ
  message : String
  deriving DecidableEq

/-- The window the capture covers. -/
structure Window where
  fromSeq : ℕ
  toSeq : ℕ
  verdict : EvidenceVerdict
  narrowedBy : List NarrowedSpan
  clamped : Bool
  shortBefore : ℕ
  shortAfter : ℕ
  deriving DecidableEq

/-- One document-scoped assertion: a `@` key and its value. -/
structure ScopedFact where
  key : String
  value : String
  deriving DecidableEq

/-- Everything the front matter is written from. Of the registry only the paths
are in it. -/
structure CaseInput where
  stem : String
  capturedAt : ℤ
  domain : String
  incarnation : Option String
  reason : String
  anchor : Anchor
  window : Window
  logdata : Option FileRef
  spandata : Option FileRef
  registry : List String
  asserted : List ScopedFact
  deriving DecidableEq

/-- Admit a scoped fact: the last writer of a key wins within one call. -/
def scopeOne (key value : String) : List ScopedFact → List ScopedFact
  | [] => [⟨key, value⟩]
  | f :: facts => if f.key = key then ⟨f.key, value⟩ :: facts else f :: scopeOne key value facts

theorem scopeOne_keys (key value : String) : ∀ facts : List ScopedFact,
    (scopeOne key value facts).map ScopedFact.key =
      if key ∈ facts.map ScopedFact.key then facts.map ScopedFact.key else facts.map ScopedFact.key ++ [key]
  | [] => rfl
  | f :: facts => by
    have ih := scopeOne_keys key value facts
    unfold scopeOne
    by_cases hf : f.key = key
    · simp [hf]
    · rw [if_neg hf, List.map_cons, ih]
      by_cases hm : key ∈ facts.map ScopedFact.key
      · simp [hm]
      · simp [hm, Ne.symm hf]

/-- A capture asserts each key once. -/
theorem scopeOne_nodup (key value : String) {facts : List ScopedFact} (h : (facts.map ScopedFact.key).Nodup) :
    ((scopeOne key value facts).map ScopedFact.key).Nodup := by
  rw [scopeOne_keys]
  split_ifs with hm
  · exact h
  · exact List.Nodup.append h (List.nodup_singleton _) (by simpa using hm)

/-! ### The block -/

/-- A number in two hexadecimal digits. -/
def hex2 (n : ℕ) : List Char := [Nat.digitChar (n / 16), Nat.digitChar (n % 16)]

/-- A character inside a double-quoted scalar. -/
def yamlEscape (c : Char) : List Char :=
  if c = '\\' then ['\\', '\\']
  else if c = '"' then ['\\', '"']
  else if c = '\n' then ['\\', 'n']
  else if c = '\r' then ['\\', 'r']
  else if c = '\t' then ['\\', 't']
  else if c.toNat < 0x20 || c.toNat == 0x7f then '\\' :: 'x' :: hex2 c.toNat
  else if c = '\u0085' then ['\\', 'N']
  else if c = '\u2028' then ['\\', 'L']
  else if c = '\u2029' then ['\\', 'P']
  else [c]

/-- A double-quoted scalar. -/
def yamlStr (s : String) : List Char := '"' :: (s.toList.flatMap yamlEscape ++ ['"'])

/-- The core keys of a domain's registry. -/
def coreKeys : List String := ["/Build/commit", "/Build/profile", "/Action"]

/-- How many of the core keys are present, and which are missing. -/
def coreCoverage (registry : List String) : ℕ × List String :=
  let missing := coreKeys.filter fun k => !registry.contains k
  (coreKeys.length - missing.length, missing)

def verdictStr : EvidenceVerdict → String
  | .complete => "complete"
  | .evicted => "evicted"
  | .filtered => "filtered"
  | .cannotVerify => "cannot_verify"

/-- A number in decimal. -/
def decimal (n : ℕ) : List Char := (toString n).toList

/-- Texts with `, ` between each two. -/
def joinComma (ts : List (List Char)) : List Char := List.intercalate ", ".toList ts

/-- One evidence pointer. -/
def filePointer (key : String) (p : FileRef) : List Char :=
  match p.bySource with
  | some c =>
    key.toList ++ ": \x7bfile: ".toList ++ yamlStr p.file ++ ", records: ".toList ++ decimal p.records ++
      ", by_source: \x7bfilter: ".toList ++ decimal c.filter ++ ", pre_trigger: ".toList ++ decimal c.preTrigger ++
      ", post_trigger: ".toList ++ decimal c.postTrigger ++ "\x7d\x7d\n".toList
  | none =>
    key.toList ++ ": \x7bfile: ".toList ++ yamlStr p.file ++ ", records: ".toList ++ decimal p.records ++
      "\x7d\n".toList

/-- An evidence pointer; the key is absent when the capture omitted the evidence. -/
def evidencePointer (key : String) : Option FileRef → List Char
  | some p => filePointer key p
  | none => []

/-- The era the seqs belong to. -/
def incarnationText : Option String → List Char
  | some v => yamlStr v
  | none => "null".toList

/-- One stretch of `narrowed_by`. -/
def narrowedRange (n : NarrowedSpan) : List Char :=
  "\x7bfrom: ".toList ++ decimal n.fromSeq ++ ", to: ".toList ++ decimal n.toSeq ++ ", filters: [".toList ++
    joinComma (n.filters.map yamlStr) ++ "]\x7d".toList

/-- The front matter, up to and with the blank line after the closing fence. -/
def frontMatter (D : ReadEnv) (i : CaseInput) : List Char :=
  let (core, missing) := coreCoverage i.registry
  "---\n".toList ++
  ("case: ".toList ++ i.stem.toList ++ "\n".toList) ++
  ("logmon_format: ".toList ++ decimal formatVersion ++ "\n".toList) ++
  ("captured_at: ".toList ++ yamlStr (D.toRfc3339 i.capturedAt) ++ "\n".toList) ++
  ("domain: ".toList ++ yamlStr i.domain ++ "\n".toList) ++
  ("incarnation: ".toList ++ incarnationText i.incarnation ++ "\n".toList) ++
  ("reason: ".toList ++ yamlStr i.reason ++ "\n".toList) ++
  ("anchor: \x7bkind: ".toList ++ i.anchor.kind.word.toList ++ ", value: ".toList ++ yamlStr i.anchor.label ++
    ", seq: ".toList ++ decimal i.anchor.seq ++ ", at: ".toList ++ yamlStr (D.toRfc3339 i.anchor.time) ++
    "\x7d\n".toList) ++
  ("headline: ".toList ++ yamlStr i.anchor.message ++ "\n".toList) ++
  ("verdict: ".toList ++ (verdictStr i.window.verdict).toList ++ "\n".toList) ++
  ("seq_range: \x7bfrom: ".toList ++ decimal i.window.fromSeq ++ ", to: ".toList ++ decimal i.window.toSeq ++
    ", requested_before_missing: ".toList ++ decimal i.window.shortBefore ++
    ", requested_after_missing: ".toList ++ decimal i.window.shortAfter ++
    ", clamped: ".toList ++ (if i.window.clamped then "true" else "false").toList ++ "\x7d\n".toList) ++
  evidencePointer "logdata" i.logdata ++
  evidencePointer "spandata" i.spandata ++
  ("narrowed_by: [".toList ++ joinComma (i.window.narrowedBy.map narrowedRange) ++ "]\n".toList) ++
  ("provenance: \x7bcore: \"".toList ++ decimal core ++ " of ".toList ++ decimal coreKeys.length ++
    "\", missing: [".toList ++ joinComma (missing.map yamlStr) ++ "]\x7d\n".toList) ++
  ("asserted: \x7b".toList ++
    joinComma (i.asserted.map fun f => yamlStr f.key ++ ": ".toList ++ yamlStr f.value) ++ "\x7d\n".toList) ++
  "---\n\n".toList

/-- A case document: the front matter, then the sections. -/
def render (D : ReadEnv) (i : CaseInput) (sections : List Char) : List Char := frontMatter D i ++ sections

end Cases
end Logmon
