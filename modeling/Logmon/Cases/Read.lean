/-
# Reading a case document's front matter

`cases/read.rs`: the scanner over one line's value (quoted and bare scalars,
flow mappings and sequences), the typed fields taken out of the mapping the
lines make, and `parse_front_matter` over both. The text form of an instant and
the debug form of a text come from outside (`ReadEnv`).

The scanner's mutual recursion runs on fuel; `fuelFor` of a text is always
enough for it (`Cur.value_isSome`), so the fuel never decides an answer
(`parseFrontMatter_isSome`).

Key definitions: `ParseError`, `Value`, `unescape`, `Cur.value`, `FrontMatter`,
`parseFrontMatter`.
Key theorems: `Cur.value_isSome`, `parseFrontMatter_isSome`.
-/
import Logmon.Engine.Epoch
import Logmon.Lib.Bindings
import Logmon.Lib.Text

namespace Logmon
namespace Cases

open Lib

/-- The newest format this broker reads, and the one it writes. -/
def formatVersion : ℕ := 1

/-- Why a case document could not be read. -/
inductive ParseError
  | noFrontMatter
  | malformedLine (line : ℕ) (text : String)
  | missingKey (key : String)
  | wrongType (key wanted got : String)
  | badEscape (pos : ℕ) (seq : String)
  | unterminatedString (pos : ℕ)
  | badFlow (pos : ℕ) (what : String)
  | badTimestamp (key value : String)
  | badVerdict (verdict : String)
  | formatTooNew (found known : ℕ)
  deriving DecidableEq

/-- What the grammar can express. -/
inductive Value
  | str (s : String)
  | bare (s : String)
  | map (m : List (String × Value))
  | seq (items : List Value)

/-- The text forms the reader takes from libraries: an instant in RFC 3339, and
the debug form of a text and of a character. -/
structure ReadEnv where
  toRfc3339 : ℤ → String
  parseRfc3339 : String → Option ℤ
  debugStr : String → String
  debugChar : Char → String

/-! ### Un-escaping -/

/-- The value of a hexadecimal digit of either case. -/
def hexDigit? (c : Char) : Option ℕ :=
  if c.isDigit then some (c.toNat - '0'.toNat)
  else if 'a' ≤ c ∧ c ≤ 'f' then some (c.toNat - 'a'.toNat + 10)
  else if 'A' ≤ c ∧ c ≤ 'F' then some (c.toNat - 'A'.toNat + 10)
  else none

/-- Two characters as a number in base 16; a leading `+` is a sign. -/
def hexPair? (hi lo : Char) : Option ℕ :=
  (hexDigit? lo).bind fun l => if hi = '+' then some l else (hexDigit? hi).map fun h => 16 * h + l

/-- The escapes of one character. -/
def simpleEscape? (c : Char) : Option Char :=
  if c = '\\' then some '\\'
  else if c = '"' then some '"'
  else if c = 'n' then some '\n'
  else if c = 'r' then some '\r'
  else if c = 't' then some '\t'
  else if c = 'N' then some '\u0085'
  else if c = 'L' then some '\u2028'
  else if c = 'P' then some '\u2029'
  else none

/-- Reverse `yamlStr`: an escape that it never writes is an error. `i` is the
byte offset of what is left in the scalar that starts at `base`. -/
def unescape (base : ℕ) : ℕ → List Char → Except ParseError (List Char)
  | _, [] => .ok []
  | i, c :: rest =>
    if c ≠ '\\' then (unescape base (i + c.utf8Size) rest).map (c :: ·)
    else match rest with
      | [] => .error (.badEscape (base + i) "\\")
      | esc :: rest =>
        if esc = 'x' then match rest with
          | hi :: lo :: rest =>
            match hexPair? hi lo with
            | some n =>
              if n.isValidChar then
                (unescape base (i + 2 + hi.utf8Size + lo.utf8Size) rest).map (Char.ofNat n :: ·)
              else .error (.badEscape (base + i) (String.ofList ['\\', 'x', hi, lo]))
            | none => .error (.badEscape (base + i) (String.ofList ['\\', 'x', hi, lo]))
          | _ => .error (.badEscape (base + i) "\\x")
        else match simpleEscape? esc with
          | some c => (unescape base (i + 1 + esc.utf8Size) rest).map (c :: ·)
          | none => .error (.badEscape (base + i) (String.ofList ['\\', esc]))

/-! ### The scanner -/

/-- A place in a line: what is left of it, and its offset in the document. -/
structure Cur where
  rest : List Char
  pos : ℕ
  deriving DecidableEq

namespace Cur

def peek (cur : Cur) : Option Char := cur.rest.head?

/-- Past one character. -/
def advance (cur : Cur) : Cur := ⟨cur.rest.tail, cur.pos + 1⟩

def isBlank (c : Char) : Bool := c = ' ' || c = '\t'

/-- Past the characters `p` holds of. -/
def skipWhile (p : Char → Bool) (cur : Cur) : Cur :=
  ⟨cur.rest.dropWhile p, cur.pos + (cur.rest.takeWhile p).length⟩

def skipWs (cur : Cur) : Cur := cur.skipWhile isBlank

/-- The raw text of a quoted scalar that started at `start`, up to its closing
quote, escapes and all. -/
def quotedLoop (start : ℕ) : List Char → ℕ → Except ParseError (List Char × Cur)
  | [], _ => .error (.unterminatedString start)
  | c :: rest, pos =>
    if c = '"' then .ok ([], ⟨rest, pos + 1⟩)
    else if c = '\\' then match rest with
      | [] => .error (.unterminatedString start)
      | d :: rest => (quotedLoop start rest (pos + 2)).map fun r => ('\\' :: d :: r.1, r.2)
    else (quotedLoop start rest (pos + 1)).map fun r => (c :: r.1, r.2)

/-- A quoted scalar. -/
def quoted (cur : Cur) : Except ParseError (String × Cur) := do
  let (raw, cur') ← quotedLoop cur.pos cur.advance.rest cur.advance.pos
  let s ← unescape (cur.pos + 1) 0 raw
  return (String.ofList s, cur')

/-- What a bare scalar runs up to. -/
def endsBare (c : Char) : Bool := c = ',' || c = '}' || c = ']'

/-- What a bare key runs up to. -/
def endsKey (c : Char) : Bool := c = ':' || c = ',' || c = '}'

/-- The text up to a character that ends it, trimmed. -/
def token (ends : Char → Bool) (cur : Cur) : String × Cur :=
  (String.ofList (trim (cur.rest.takeWhile fun c => !ends c)), cur.skipWhile fun c => !ends c)

/-- An unquoted scalar. -/
def bare (cur : Cur) : String × Cur := cur.token endsBare

/-- The key of a flow mapping's entry, quoted or not. -/
def key (cur : Cur) : Except ParseError (String × Cur) :=
  if cur.peek = some '"' then cur.quoted else .ok (cur.token endsKey)

variable (D : ReadEnv)

mutual

/-- A value; `none` only when the fuel runs out. -/
def value : ℕ → Cur → Option (Except ParseError (Value × Cur))
  | 0, _ => none
  | fuel + 1, cur =>
    let cur := cur.skipWs
    if cur.peek = some '"' then some (cur.quoted.map fun r => (.str r.1, r.2))
    else if cur.peek = some '{' then flowMap fuel cur.pos [] cur.advance
    else if cur.peek = some '[' then flowSeq fuel cur.pos [] cur.advance
    else some (.ok (.bare cur.bare.1, cur.bare.2))

/-- The entries of a flow mapping that opened at `start`. -/
def flowMap : ℕ → ℕ → List (String × Value) → Cur → Option (Except ParseError (Value × Cur))
  | 0, _, _, _ => none
  | fuel + 1, start, m, cur =>
    let cur := cur.skipWs
    match cur.peek with
    | none => some (.error (.badFlow start "mapping (never closed)"))
    | some c =>
      if c = '}' then some (.ok (.map m, cur.advance))
      else if c = ',' then flowMap fuel start m cur.advance
      else match cur.key with
        | .error e => some (.error e)
        | .ok (key, cur) =>
          let cur := cur.skipWs
          if cur.peek ≠ some ':' then
            some (.error (.badFlow cur.pos ("mapping (no `:` after key " ++ D.debugStr key ++ ")")))
          else match value fuel cur.advance with
            | none => none
            | some (.error e) => some (.error e)
            | some (.ok (v, cur)) => flowMap fuel start (insertKey key v m) cur

/-- The items of a flow sequence that opened at `start`. Every round consumes
something: an item that consumes nothing is refused. -/
def flowSeq : ℕ → ℕ → List Value → Cur → Option (Except ParseError (Value × Cur))
  | 0, _, _, _ => none
  | fuel + 1, start, items, cur =>
    let cur := cur.skipWs
    match cur.peek with
    | none => some (.error (.badFlow start "sequence (never closed)"))
    | some c =>
      if c = ']' then some (.ok (.seq items, cur.advance))
      else if c = ',' then flowSeq fuel start items cur.advance
      else match value fuel cur with
        | none => none
        | some (.error e) => some (.error e)
        | some (.ok (v, cur')) =>
          if cur'.pos = cur.pos then
            some (.error (.badFlow cur'.pos
              ("sequence (nothing consumable at " ++ D.debugChar (cur'.peek.getD ' ') ++ ")")))
          else flowSeq fuel start (items ++ [v]) cur'

end

/-! ### Every round consumes something -/

/-- `cur'` is in the same line, at or after `cur`. -/
def Follows (cur cur' : Cur) : Prop :=
  cur.pos ≤ cur'.pos ∧ cur'.pos + cur'.rest.length = cur.pos + cur.rest.length

theorem Follows.trans {a b c : Cur} (hab : Follows a b) (hbc : Follows b c) : Follows a c :=
  ⟨hab.1.trans hbc.1, hbc.2.trans hab.2⟩

theorem Follows.length_le {a b : Cur} (h : Follows a b) : b.rest.length ≤ a.rest.length := by
  obtain ⟨hle, heq⟩ := h
  omega

theorem follows_skipWhile (p : Char → Bool) (cur : Cur) : Follows cur (cur.skipWhile p) := by
  have hsplit := congrArg List.length (List.takeWhile_append_dropWhile (p := p) (l := cur.rest))
  rw [List.length_append] at hsplit
  refine ⟨Nat.le_add_right _ _, ?_⟩
  show cur.pos + (cur.rest.takeWhile p).length + (cur.rest.dropWhile p).length = _
  omega

theorem follows_advance {cur : Cur} {c : Char} (h : cur.peek = some c) :
    Follows cur cur.advance ∧ cur.advance.rest.length + 1 = cur.rest.length := by
  unfold peek at h
  unfold advance Follows
  cases hr : cur.rest with
  | nil => rw [hr] at h; exact absurd h (by simp)
  | cons a l => simp; omega

theorem follows_quotedLoop {start : ℕ} : ∀ {l : List Char} {pos : ℕ} {raw : List Char} {cur : Cur},
    quotedLoop start l pos = .ok (raw, cur) → Follows ⟨l, pos⟩ cur
  | [], _, _, _, h => by simp [quotedLoop] at h
  | c :: l, pos, raw, cur, h => by
    unfold quotedLoop at h
    split_ifs at h with hq hb
    · obtain ⟨-, rfl⟩ := Prod.mk.inj (Except.ok.inj h)
      unfold Follows
      simp
      omega
    · cases l with
      | nil => simp at h
      | cons d l =>
        simp only at h
        cases hrec : quotedLoop start l (pos + 2) with
        | error e => rw [hrec] at h; simp [Except.map] at h
        | ok r =>
          rw [hrec] at h
          obtain ⟨-, rfl⟩ := Prod.mk.inj (Except.ok.inj h)
          have := follows_quotedLoop hrec
          unfold Follows at this ⊢
          simp only [List.length_cons] at this ⊢
          omega
    · cases hrec : quotedLoop start l (pos + 1) with
      | error e => rw [hrec] at h; simp [Except.map] at h
      | ok r =>
        rw [hrec] at h
        obtain ⟨-, rfl⟩ := Prod.mk.inj (Except.ok.inj h)
        have := follows_quotedLoop hrec
        unfold Follows at this ⊢
        simp only [List.length_cons] at this ⊢
        omega

theorem follows_quoted {cur cur' : Cur} {c : Char} {s : String} (hc : cur.peek = some c)
    (h : cur.quoted = .ok (s, cur')) : Follows cur cur' := by
  unfold quoted at h
  cases hloop : quotedLoop cur.pos cur.advance.rest cur.advance.pos with
  | error e => rw [hloop] at h; simp [bind, Except.bind] at h
  | ok r =>
    obtain ⟨raw, cur''⟩ := r
    rw [hloop] at h
    simp only [bind, Except.bind, pure, Except.pure] at h
    split at h
    · simp at h
    · obtain ⟨-, rfl⟩ := Prod.mk.inj (Except.ok.inj h)
      exact (follows_advance hc).1.trans (follows_quotedLoop hloop)

theorem follows_key {cur cur' : Cur} {s : String} (h : cur.key = .ok (s, cur')) : Follows cur cur' := by
  unfold key at h
  split_ifs at h with hq
  · exact follows_quoted hq h
  · obtain ⟨-, rfl⟩ := Prod.mk.inj (Except.ok.inj h)
    exact follows_skipWhile _ _

/-- An answer there is, and where it ends follows `cur`. -/
def Answers (cur : Cur) (o : Option (Except ParseError (Value × Cur))) : Prop :=
  ∃ r, o = some r ∧ ∀ v cur', r = .ok (v, cur') → Follows cur cur'

theorem answers_error (cur : Cur) (e : ParseError) : Answers cur (some (.error e)) :=
  ⟨_, rfl, fun _ _ h => nomatch h⟩

theorem answers_ok {cur cur' : Cur} (v : Value) (h : Follows cur cur') : Answers cur (some (.ok (v, cur'))) := by
  refine ⟨_, rfl, fun w c hok => ?_⟩
  obtain ⟨-, rfl⟩ := Prod.mk.inj (Except.ok.inj hok)
  exact h

theorem Answers.of_follows {a b : Cur} {o : Option (Except ParseError (Value × Cur))} (hab : Follows a b)
    (h : Answers b o) : Answers a o := by
  obtain ⟨r, ho, hr⟩ := h
  exact ⟨r, ho, fun v c hok => hab.trans (hr v c hok)⟩

variable {D}

/-- A mapping's entries, given the values inside it. -/
theorem flowMap_step {fuel : ℕ} (hvalue : ∀ cur : Cur, 2 * cur.rest.length + 1 ≤ fuel → Answers cur (value D fuel cur))
    (hmap : ∀ start m (cur : Cur), 2 * cur.rest.length + 2 ≤ fuel → Answers cur (flowMap D fuel start m cur))
    (start : ℕ) (m : List (String × Value)) (cur : Cur) (hfuel : 2 * cur.rest.length + 2 ≤ fuel + 1) :
    Answers cur (flowMap D (fuel + 1) start m cur) := by
  have hws : Follows cur cur.skipWs := follows_skipWhile _ _
  have hlen := hws.length_le
  refine Answers.of_follows hws ?_
  unfold flowMap
  simp only
  cases hpeek : cur.skipWs.peek with
  | none => exact answers_error _ _
  | some c =>
    obtain ⟨hadv, hshort⟩ := follows_advance hpeek
    simp only
    split_ifs with hclose hcomma
    · exact answers_ok _ hadv
    · exact (hmap _ _ _ (by omega)).of_follows hadv
    · cases hkey : cur.skipWs.key with
      | error e => exact answers_error _ _
      | ok r =>
        obtain ⟨key, cur'⟩ := r
        simp only
        have hto : Follows cur.skipWs cur'.skipWs := (follows_key hkey).trans (follows_skipWhile _ _)
        have hlen' := hto.length_le
        split_ifs with hcolon
        · exact answers_error _ _
        · rw [ne_eq, not_not] at hcolon
          obtain ⟨hadv', hshort'⟩ := follows_advance hcolon
          obtain ⟨r, hr, hfollows⟩ := hvalue cur'.skipWs.advance (by omega)
          rw [hr]
          cases r with
          | error e => exact answers_error _ _
          | ok r =>
            have hend := hto.trans (hadv'.trans (hfollows r.1 r.2 rfl))
            have hshorter := (hfollows r.1 r.2 rfl).length_le
            exact (hmap _ _ _ (by omega)).of_follows hend

/-- A sequence's items, given the values inside it. -/
theorem flowSeq_step {fuel : ℕ} (hvalue : ∀ cur : Cur, 2 * cur.rest.length + 1 ≤ fuel → Answers cur (value D fuel cur))
    (hseq : ∀ start items (cur : Cur), 2 * cur.rest.length + 2 ≤ fuel → Answers cur (flowSeq D fuel start items cur))
    (start : ℕ) (items : List Value) (cur : Cur) (hfuel : 2 * cur.rest.length + 2 ≤ fuel + 1) :
    Answers cur (flowSeq D (fuel + 1) start items cur) := by
  have hws : Follows cur cur.skipWs := follows_skipWhile _ _
  have hlen := hws.length_le
  refine Answers.of_follows hws ?_
  unfold flowSeq
  simp only
  cases hpeek : cur.skipWs.peek with
  | none => exact answers_error _ _
  | some c =>
    obtain ⟨hadv, hshort⟩ := follows_advance hpeek
    simp only
    split_ifs with hclose hcomma
    · exact answers_ok _ hadv
    · exact (hseq _ _ _ (by omega)).of_follows hadv
    · obtain ⟨r, hr, hfollows⟩ := hvalue cur.skipWs (by omega)
      rw [hr]
      cases r with
      | error e => exact answers_error _ _
      | ok r =>
        obtain ⟨v, cur'⟩ := r
        have hto := hfollows v cur' rfl
        simp only
        split_ifs with hstuck
        · exact answers_error _ _
        -- the guard: another place is a later place
        · have hlater : cur'.rest.length < cur.skipWs.rest.length := by
            obtain ⟨hle, heq⟩ := hto
            omega
          exact (hseq _ _ _ (by omega)).of_follows hto

theorem answers_all : ∀ fuel : ℕ,
    (∀ cur : Cur, 2 * cur.rest.length + 1 ≤ fuel → Answers cur (value D fuel cur)) ∧
    (∀ start m (cur : Cur), 2 * cur.rest.length + 2 ≤ fuel → Answers cur (flowMap D fuel start m cur)) ∧
    (∀ start items (cur : Cur), 2 * cur.rest.length + 2 ≤ fuel → Answers cur (flowSeq D fuel start items cur))
  | 0 => ⟨fun _ h => by omega, fun _ _ _ h => by omega, fun _ _ _ h => by omega⟩
  | fuel + 1 => by
    obtain ⟨hvalue, hmap, hseq⟩ := answers_all fuel
    refine ⟨fun cur h => ?_, flowMap_step hvalue hmap, flowSeq_step hvalue hseq⟩
    have hws : Follows cur cur.skipWs := follows_skipWhile _ _
    have hlen := hws.length_le
    refine Answers.of_follows hws ?_
    unfold value
    simp only
    split_ifs with hquote hbrace hbracket
    · cases hq : cur.skipWs.quoted with
      | error e => exact answers_error _ _
      | ok r => exact answers_ok _ (follows_quoted hquote hq)
    · obtain ⟨hadv, hshort⟩ := follows_advance hbrace
      exact (hmap _ _ _ (by omega)).of_follows hadv
    · obtain ⟨hadv, hshort⟩ := follows_advance hbracket
      exact (hseq _ _ _ (by omega)).of_follows hadv
    · exact answers_ok _ (follows_skipWhile _ _)

end Cur

/-- Fuel for a value in a text. -/
def fuelFor (text : List Char) : ℕ := 2 * text.length + 1

/-- **The scanner always answers.** -/
theorem Cur.value_isSome (D : ReadEnv) (text : List Char) (pos : ℕ) :
    ∃ r, Cur.value D (fuelFor text) ⟨text, pos⟩ = some r := by
  obtain ⟨r, hr, -⟩ := (Cur.answers_all (D := D) (fuelFor text)).1 ⟨text, pos⟩ (le_refl _)
  exact ⟨r, hr⟩

/-! ### The typed front matter -/

structure AnchorRef where
  kind : String
  value : String
  seq : ℕ
  time : ℤ
  deriving DecidableEq

structure SeqRange where
  fromSeq : ℕ
  toSeq : ℕ
  requestedBeforeMissing : ℕ
  requestedAfterMissing : ℕ
  clamped : Bool
  deriving DecidableEq

/-- The split between records stored because they matched a filter and those
the flight recorder flushed around a trigger. -/
structure SourceCounts where
  filter : ℕ
  preTrigger : ℕ
  postTrigger : ℕ
  deriving DecidableEq

/-- An evidence file, as the document points at it. -/
structure FileRef where
  file : String
  records : ℕ
  bySource : Option SourceCounts
  deriving DecidableEq

structure Provenance where
  core : String
  missing : List String
  deriving DecidableEq

/-- A case document's front matter. `narrowedBy` is `none` for a case that
predates the key. -/
structure FrontMatter where
  stem : String
  logmonFormat : ℕ
  capturedAt : ℤ
  domain : String
  incarnation : Option String
  reason : String
  anchor : AnchorRef
  headline : String
  verdict : EvidenceVerdict
  seqRange : SeqRange
  logdata : Option FileRef
  spandata : Option FileRef
  narrowedBy : Option (List NarrowedSpan)
  provenance : Provenance
  asserted : List (String × String)
  deriving DecidableEq

/-! ### Field extraction -/

/-- The largest `u32`. -/
def maxU32 : ℕ := 2 ^ 32 - 1

section Fields

variable (D : ReadEnv)

def Value.typeName : Value → String
  | .str s => "the string " ++ D.debugStr s
  | .bare s => "the bare word " ++ D.debugStr s
  | .map _ => "a mapping"
  | .seq _ => "a sequence"

def take (top : List (String × Value)) (key : String) : Except ParseError Value :=
  match lookupKey key top with
  | some v => .ok v
  | none => .error (.missingKey key)

def asText (v : Value) (key : String) : Except ParseError String :=
  match v with
  | .str s => .ok s
  | .bare s => .ok s
  | other => .error (.wrongType key "a scalar" (other.typeName D))

def asU64 (v : Value) (key : String) : Except ParseError ℕ := do
  let t ← asText D v key
  match parseNat? u64Max t.toList with
  | some n => return n
  | none => throw (.wrongType key "a non-negative integer" (D.debugStr t))

def asBool (v : Value) (key : String) : Except ParseError Bool := do
  let t ← asText D v key
  if t = "true" then return true
  else if t = "false" then return false
  else throw (.wrongType key "true or false" (D.debugStr t))

def asMap (v : Value) (key : String) : Except ParseError (List (String × Value)) :=
  match v with
  | .map m => .ok m
  | other => .error (.wrongType key "a mapping" (other.typeName D))

def asTime (v : Value) (key : String) : Except ParseError ℤ := do
  let t ← asText D v key
  match D.parseRfc3339 t with
  | some d => return d
  | none => throw (.badTimestamp key t)

/-- A key of a nested mapping; the error names the outer one. -/
def sub (m : List (String × Value)) (outer inner : String) : Except ParseError Value :=
  match lookupKey inner m with
  | some v => .ok v
  | none => .error (.wrongType outer "a mapping containing all its fields" ("a mapping with no " ++ D.debugStr inner))

def readFormat (top : List (String × Value)) : Except ParseError ℕ := do
  let declared ← asU64 D (← take top "logmon_format") "logmon_format"
  let found := if declared ≤ maxU32 then declared else maxU32
  if formatVersion < found then throw (.formatTooNew found formatVersion)
  return found

def readAnchor (top : List (String × Value)) : Except ParseError AnchorRef := do
  let m ← asMap D (← take top "anchor") "anchor"
  let kind ← asText D (← sub D m "anchor" "kind") "anchor"
  let value ← asText D (← sub D m "anchor" "value") "anchor"
  let seq ← asU64 D (← sub D m "anchor" "seq") "anchor"
  let time ← asTime D (← sub D m "anchor" "at") "anchor"
  return ⟨kind, value, seq, time⟩

def readSeqRange (top : List (String × Value)) : Except ParseError SeqRange := do
  let m ← asMap D (← take top "seq_range") "seq_range"
  let fromSeq ← asU64 D (← sub D m "seq_range" "from") "seq_range"
  let toSeq ← asU64 D (← sub D m "seq_range" "to") "seq_range"
  let before ← asU64 D (← sub D m "seq_range" "requested_before_missing") "seq_range"
  let after ← asU64 D (← sub D m "seq_range" "requested_after_missing") "seq_range"
  let clamped ← asBool D (← sub D m "seq_range" "clamped") "seq_range"
  return ⟨fromSeq, toSeq, before, after, clamped⟩

def readSourceCounts (v : Value) (key : String) : Except ParseError SourceCounts := do
  let c ← asMap D v key
  let filter ← asU64 D (← sub D c key "filter") key
  let preTrigger ← asU64 D (← sub D c key "pre_trigger") key
  let postTrigger ← asU64 D (← sub D c key "post_trigger") key
  return ⟨filter, preTrigger, postTrigger⟩

/-- An evidence pointer; absent means the capture omitted the evidence. -/
def fileRef (top : List (String × Value)) (key : String) : Except ParseError (Option FileRef) :=
  match lookupKey key top with
  | none => .ok none
  | some v => do
    let m ← asMap D v key
    let bySource ← match lookupKey "by_source" m with
      | none => .ok none
      | some v => (readSourceCounts D v key).map some
    let file ← asText D (← sub D m key "file") key
    let records ← asU64 D (← sub D m key "records") key
    return some ⟨file, records, bySource⟩

/-- The items of a sequence, each a scalar. -/
def textItems (v : Value) (key wanted : String) : Except ParseError (List String) :=
  match v with
  | .seq items => items.mapM fun v => asText D v key
  | other => .error (.wrongType key wanted (other.typeName D))

def readNarrowedSpan (v : Value) : Except ParseError NarrowedSpan := do
  let m ← asMap D v "narrowed_by"
  let filters ← textItems D (← sub D m "narrowed_by" "filters") "narrowed_by" "a range whose `filters` is a sequence"
  let fromSeq ← asU64 D (← sub D m "narrowed_by" "from") "narrowed_by"
  let toSeq ← asU64 D (← sub D m "narrowed_by" "to") "narrowed_by"
  return ⟨fromSeq, toSeq, filters⟩

def readNarrowedBy (top : List (String × Value)) : Except ParseError (Option (List NarrowedSpan)) :=
  match lookupKey "narrowed_by" top with
  | none => .ok none
  | some (.seq items) => (items.mapM (readNarrowedSpan D)).map some
  | some other => .error (.wrongType "narrowed_by" "a sequence" (other.typeName D))

def readProvenance (top : List (String × Value)) : Except ParseError Provenance := do
  let m ← asMap D (← take top "provenance") "provenance"
  let core ← asText D (← sub D m "provenance" "core") "provenance"
  let missing ← textItems D (← sub D m "provenance" "missing") "provenance" "a mapping whose `missing` is a sequence"
  return ⟨core, missing⟩

/-- The document's own facts; a document without the key asserts nothing. -/
def readAsserted (top : List (String × Value)) : Except ParseError (List (String × String)) :=
  match lookupKey "asserted" top with
  | none => .ok []
  | some v => do
    let m ← asMap D v "asserted"
    m.mapM fun p => (asText D p.2 "asserted").map fun s => (p.1, s)

def readIncarnation (top : List (String × Value)) : Except ParseError (Option String) := do
  let s ← asText D (← take top "incarnation") "incarnation"
  return if s = "null" then none else some s

def readVerdict (top : List (String × Value)) : Except ParseError EvidenceVerdict := do
  let s ← asText D (← take top "verdict") "verdict"
  if s = "complete" then return .complete
  else if s = "evicted" then return .evicted
  else if s = "filtered" then return .filtered
  else if s = "cannot_verify" then return .cannotVerify
  else throw (.badVerdict s)

/-- The fields, in the order the source asks for them: the format first, since
everything after it interprets bytes whose meaning it establishes. -/
def FrontMatter.ofTop (top : List (String × Value)) : Except ParseError FrontMatter := do
  let logmonFormat ← readFormat D top
  let anchor ← readAnchor D top
  let seqRange ← readSeqRange D top
  let narrowedBy ← readNarrowedBy D top
  let provenance ← readProvenance D top
  let asserted ← readAsserted D top
  let incarnation ← readIncarnation D top
  let verdict ← readVerdict D top
  let stem ← asText D (← take top "case") "case"
  let capturedAt ← asTime D (← take top "captured_at") "captured_at"
  let domain ← asText D (← take top "domain") "domain"
  let reason ← asText D (← take top "reason") "reason"
  let headline ← asText D (← take top "headline") "headline"
  let logdata ← fileRef D top "logdata"
  let spandata ← fileRef D top "spandata"
  return ⟨stem, logmonFormat, capturedAt, domain, incarnation, reason, anchor, headline, verdict, seqRange, logdata,
    spandata, narrowedBy, provenance, asserted⟩

/-! ### The entry point -/

/-- The fenced block, and its offset. -/
def fenced (doc : List Char) : Except ParseError (List Char × ℕ) :=
  if "---\n".toList.isPrefixOf doc then
    match textBefore "\n---".toList (doc.drop 4) with
    | some block => .ok (block, 4)
    | none => .error .noFrontMatter
  else .error .noFrontMatter

/-- The length of a text in bytes. -/
def byteLen (l : List Char) : ℕ := (l.map Char.utf8Size).sum

/-- The lines from the `n`th on, at `offset`, bound into `top`. -/
def readLines : ℕ → ℕ → List (String × Value) → List (List Char) → Option (Except ParseError (List (String × Value)))
  | _, _, top, [] => some (.ok top)
  | n, offset, top, line :: ls =>
    let trimmed := trim line
    if trimmed.isEmpty then readLines (n + 1) (offset + (byteLen line + 1)) top ls
    else match splitOnce ':' trimmed with
      | none => some (.error (.malformedLine (n + 1) (String.ofList trimmed)))
      | some (key, rest) =>
        match Cur.value D (fuelFor rest) ⟨rest, offset + byteLen key + 1⟩ with
        | none => none
        | some (.error e) => some (.error e)
        | some (.ok (v, _)) =>
          readLines (n + 1) (offset + (byteLen line + 1)) (insertKey (String.ofList (trim key)) v top) ls

/-- A case document's front matter. -/
def parseFrontMatter (doc : List Char) : Option (Except ParseError FrontMatter) :=
  match fenced doc with
  | .error e => some (.error e)
  | .ok (block, base) => (readLines D 0 base [] (lines block)).map fun top => top.bind (FrontMatter.ofTop D)

theorem readLines_isSome : ∀ (ls : List (List Char)) (n offset : ℕ) (top : List (String × Value)),
    ∃ r, readLines D n offset top ls = some r
  | [], _, _, top => ⟨.ok top, rfl⟩
  | line :: ls, n, offset, top => by
    unfold readLines
    simp only
    split_ifs with hempty
    · exact readLines_isSome ls _ _ _
    · cases hsplit : splitOnce ':' (trim line) with
      | none => exact ⟨_, rfl⟩
      | some p =>
        obtain ⟨key, rest⟩ := p
        obtain ⟨r, hr⟩ := Cur.value_isSome D rest (offset + byteLen key + 1)
        simp only [hr]
        cases r with
        | error e => exact ⟨_, rfl⟩
        | ok v => exact readLines_isSome ls _ _ _

/-- **Every document is read or refused.** -/
theorem parseFrontMatter_isSome (doc : List Char) : ∃ r, parseFrontMatter D doc = some r := by
  unfold parseFrontMatter
  cases fenced doc with
  | error e => exact ⟨_, rfl⟩
  | ok p =>
    obtain ⟨r, hr⟩ := readLines_isSome D (lines p.1) 0 p.2 []
    simp only [hr]
    exact ⟨_, rfl⟩

end Fields

end Cases
end Logmon
