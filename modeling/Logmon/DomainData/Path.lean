/-
# Keys of a domain's registry

`domain_data/path.rs`: a key is an optional `@` sigil and a path of segments.
Reservation looks at a path's first segment and prefix matching at whole
segments, so a pattern matches a reserved path only if it is reserved itself
(`isReserved_of_matchesPrefix`).

Key definitions: `Key.parse`, `isReserved`, `matchesPrefix`.
Key theorems: `isReserved_of_matchesPrefix`, `Key.parse_unscoped`.
-/
import Mathlib.Data.List.TakeWhile
import Mathlib.Tactic.Linarith

namespace Logmon
namespace DomainData

/-- Longest legal path, in bytes, sigil excluded. -/
def maxPathBytes : ℕ := 256

/-- Longest legal value, in bytes. -/
def maxValueBytes : ℕ := 4096

/-- Keys per domain, the reserved ones excluded. -/
def maxKeys : ℕ := 256

/-- The one reserved first segment. -/
def reservedSegment : List Char := "logmon".toList

inductive KeyError
  | malformed
  | tooLong
  | sigilNotAllowed
  deriving DecidableEq

/-- A parsed key: a path, and whether it was sigilled. -/
structure Key where
  path : String
  sigil : Bool
  deriving DecidableEq

/-- ASCII letters, digits, `_`, `-`, `.`. -/
def isSegmentChar (c : Char) : Bool := c.isAlphanum || c = '_' || c = '-' || c = '.'

/-- `split('/')`. -/
def segments : List Char → List (List Char)
  | [] => [[]]
  | c :: l =>
    if c = '/' then [] :: segments l
    else match segments l with
      | [] => [[c]]
      | s :: ss => (c :: s) :: ss

/-- `strip_prefix('/')`. -/
def body? (path : String) : Option (List Char) :=
  match path.toList with
  | '/' :: body => some body
  | _ => none

def validatePath (path : String) : Except KeyError Unit :=
  if maxPathBytes < path.utf8ByteSize then .error .tooLong
  else match body? path with
    | none => .error .malformed
    | some body =>
      if body.isEmpty then .error .malformed
      else if (segments body).all fun s => !s.isEmpty && s.all isSegmentChar then .ok ()
      else .error .malformed

/-- The first segment of a path. -/
def firstSegment (path : String) : Option (List Char) := (body? path).bind fun body => (segments body).head?

/-- A path whose first segment is the reserved one. -/
def isReserved (path : String) : Bool := firstSegment path = some reservedSegment

/-- The pattern is the path, or the path goes on with a segment after it. -/
def matchesPrefix (pattern path : String) : Bool :=
  path == pattern ||
    (pattern.toList.isPrefixOf path.toList && (path.toList.drop pattern.toList.length).head? == some '/')

namespace Key

/-- Whether there is a sigil, and the path after it. -/
def splitSigil (raw : String) : Bool × String :=
  match raw.toList with
  | '@' :: rest => (true, String.ofList rest)
  | _ => (false, raw)

def parse (raw : String) (allowSigil : Bool) : Except KeyError Key :=
  let (sigil, path) := splitSigil raw
  match validatePath path with
  | .error e => .error e
  | .ok () => if sigil && !allowSigil then .error .sigilNotAllowed else .ok ⟨path, sigil⟩

/-- The key with its sigil. -/
def rendered (k : Key) : String := if k.sigil then String.ofList ('@' :: k.path.toList) else k.path

/-- Where no sigil is allowed a key is its own text, and a valid path. -/
theorem parse_unscoped {raw : String} {k : Key} (h : parse raw false = .ok k) :
    k = ⟨raw, false⟩ ∧ validatePath raw = .ok () := by
  unfold parse at h
  cases hsplit : splitSigil raw with
  | mk sigil path =>
    rw [hsplit] at h
    simp only [Bool.not_false, Bool.and_true] at h
    split at h
    · simp at h
    rename_i hvalid
    split at h
    · simp at h
    rename_i hsigil
    obtain rfl : path = raw := by
      unfold splitSigil at hsplit
      split at hsplit
      · simp_all
      · exact (Prod.mk.inj hsplit).2.symm
    rw [Bool.not_eq_true] at hsigil
    rw [hsigil] at h
    exact ⟨(Except.ok.inj h).symm, hvalid⟩

end Key

/-- The text is an unscoped key, as it is stored. -/
def IsKey (s : String) : Prop := ∃ k, Key.parse s false = .ok k ∧ k.sigil = false ∧ k.rendered = s

theorem isKey_of_parse {raw : String} {k : Key} (h : Key.parse raw false = .ok k) : k.rendered = raw ∧ IsKey raw := by
  have hk := (Key.parse_unscoped h).1
  refine ⟨by rw [hk]; rfl, k, h, by rw [hk], by rw [hk]; rfl⟩

/-! ### Reservation and prefixes -/

theorem segments_ne_nil : ∀ l : List Char, segments l ≠ []
  | [] => by simp [segments]
  | c :: l => by
    unfold segments
    split
    · simp
    · split <;> simp

/-- The first segment ends at the first `/`. -/
theorem head_segments : ∀ l : List Char, (segments l).head? = some (l.takeWhile (· ≠ '/'))
  | [] => rfl
  | c :: l => by
    have ih := head_segments l
    unfold segments
    by_cases hc : c = '/'
    · simp [hc]
    · rw [if_neg hc]
      cases hs : segments l with
      | nil => exact absurd hs (segments_ne_nil l)
      | cons s ss =>
        rw [hs, List.head?_cons, Option.some.injEq] at ih
        simp [hc, ih]

theorem firstSegment_eq (path : String) :
    firstSegment path = (body? path).map fun body => body.takeWhile (· ≠ '/') := by
  unfold firstSegment
  cases body? path with
  | none => rfl
  | some body => exact head_segments body

theorem body?_eq_some {path : String} {body : List Char} : body? path = some body ↔ path.toList = '/' :: body := by
  unfold body?
  split
  · rename_i b hb
    simp [hb]
  · rename_i hne
    refine ⟨(fun h => nomatch h), fun h => absurd h (hne body)⟩

/-- **A pattern that matches a reserved path is reserved**: whole segments
follow it, so it has the path's first one. -/
theorem isReserved_of_matchesPrefix {pattern path : String} {body : List Char} (hbody : body? pattern = some body)
    (hm : matchesPrefix pattern path = true) (hr : isReserved path = true) : isReserved pattern = true := by
  unfold matchesPrefix at hm
  rw [Bool.or_eq_true, beq_iff_eq, Bool.and_eq_true, beq_iff_eq] at hm
  rcases hm with rfl | ⟨hpre, hnext⟩
  · exact hr
  obtain ⟨rest, hrest⟩ := List.isPrefixOf_iff_prefix.mp hpre
  rw [← hrest, List.drop_left] at hnext
  obtain ⟨tail, rfl⟩ : ∃ tail, rest = '/' :: tail := by
    cases rest with
    | nil => simp at hnext
    | cons c tail => exact ⟨tail, by simpa using hnext⟩
  have hpattern := body?_eq_some.mp hbody
  have hpath : body? path = some (body ++ '/' :: tail) := by
    rw [body?_eq_some, ← hrest, hpattern]
    rfl
  -- the first segment is cut at the pattern's own first `/`, or at the one after it
  have hcut : (body ++ '/' :: tail).takeWhile (· ≠ '/') = body.takeWhile (· ≠ '/') := by
    clear hpath hpattern hbody hpre hrest
    induction body with
    | nil => simp
    | cons c body ih =>
      by_cases hc : c = '/'
      · simp [hc]
      · rw [List.cons_append, List.takeWhile_cons_of_pos (by simpa using hc), List.takeWhile_cons_of_pos (by simpa using hc),
          ih]
  unfold isReserved at hr ⊢
  rw [firstSegment_eq, hpath, Option.map_some, hcut] at hr
  rw [firstSegment_eq, hbody, Option.map_some]
  exact hr

/-- What parses has a body. -/
theorem body_of_parse {raw : String} {k : Key} (h : Key.parse raw false = .ok k) : ∃ body, body? raw = some body := by
  have hvalid := (Key.parse_unscoped h).2
  unfold validatePath at hvalid
  split at hvalid
  · simp at hvalid
  · split at hvalid
    · simp at hvalid
    · rename_i body hbody
      exact ⟨body, hbody⟩

end DomainData
end Logmon
