/-
# Parsing the filter DSL

`filter/parser.rs`: a filter's text is split at its commas, quotes apart, and
each token read by its first characters. Case mapping, `f64` parsing and the
regex compiler are the standard library's and a third party's, and are taken
as a `ParseEnv`.

What the parser accepts is what the rest of the daemon relies on
(`parseFilter_accepted`).

Key definitions: `ParseEnv`, `FilterParseError`, `parseToken`, `parseFilter`.
Key theorems: `parseToken_accepted`, `parseFilter_accepted`.
-/
import Logmon.Lib.Text
import Logmon.Store.BookmarkNames

namespace Logmon

open Lib

/-- `/panic|unwrap failed|stack backtrace/`, without its slashes. -/
def panicSource : String := "panic|unwrap failed|stack backtrace"

/-- The text operations of the parser that are not its own, with what the two
filters every session starts with need of them. -/
structure ParseEnv where
  toLowercase : String → String
  toUppercase : String → String
  /-- `Regex::new`: why a pattern does not compile, if it does not. -/
  regexError : String → Option String
  parseF64 : String → Option F64
  upper_error : toUppercase "ERROR" = "ERROR"
  panic_compiles : regexError panicSource = none

/-- ASCII text, no pattern refused, and no number read. -/
def ParseEnv.ascii : ParseEnv where
  toLowercase s := String.ofList (s.toList.map Char.toLower)
  toUppercase s := String.ofList (s.toList.map Char.toUpper)
  regexError _ := none
  parseF64 _ := none
  upper_error := by decide
  panic_compiles := rfl

inductive FilterParseError
  | empty
  | invalidRegex (message : String)
  | unknownLevel (level : String)
  | invalidLevelSyntax (message : String)
  | unclosedQuote
  | mixedLogSpanSelectors
  | emptyBookmarkName
  | invalidBookmarkName (name : String)
  | multipleCursorQualifiers
  | cursorLteNotSupported
  | unknownComparisonSelector (lhs : String)
  deriving DecidableEq

/-- `Display`. -/
def FilterParseError.text : FilterParseError → String
  | .empty => "empty filter string"
  | .invalidRegex message => "invalid regex: " ++ message
  | .unknownLevel level => "unknown level: " ++ level
  | .invalidLevelSyntax message => "invalid level filter syntax: " ++ message
  | .unclosedQuote => "unclosed quote"
  | .mixedLogSpanSelectors => "cannot mix log and span selectors in the same filter"
  | .emptyBookmarkName => "empty bookmark name"
  | .invalidBookmarkName name => "invalid bookmark name: " ++ name
  | .multipleCursorQualifiers => "only one cursor qualifier permitted per filter"
  | .cursorLteNotSupported =>
    "c<= is not a valid qualifier; cursors only support read-and-advance via c>=. For a read-only snapshot of past " ++
      "records, use b<=name."
  | .unknownComparisonSelector lhs =>
    "unknown selector \"" ++ lhs ++ "\": only l/d (level/duration) and b/c (bookmark/cursor) use >= or <=. For a " ++
      "literal text search, quote it or use a /regex/. Valid selectors: m, fm, mfm, h, fa, fi, ln, l, sn, sv, st, sk"

/-! ### Tokens -/

/-- The loop of `split_on_commas`: the tokens so far, the current one, and
whether it is inside quotes. -/
def splitOnCommas : List Char → List (List Char) → List Char → Bool → Except FilterParseError (List (List Char))
  | [], tokens, current, inQuote => if inQuote then .error .unclosedQuote else .ok (tokens ++ [current])
  | c :: rest, tokens, current, inQuote =>
    if c = '"' then splitOnCommas rest tokens (current ++ [c]) !inQuote
    else if c = ',' && !inQuote then splitOnCommas rest (tokens ++ [current]) [] inQuote
    else splitOnCommas rest tokens (current ++ [c]) inQuote

/-- What follows a literal start. -/
def afterStart (start : String) (l : List Char) : Option (List Char) :=
  if start.toList.isPrefixOf l then some (l.drop start.length) else none

/-- Both ends are quotes of their own. -/
def isQuoted (l : List Char) : Bool := l.head? == some '"' && l.getLast? == some '"' && decide (2 ≤ l.length)

/-- Without the first and the last character. -/
def inside (l : List Char) : List Char := l.tail.dropLast

section Parsing

variable (env : ParseEnv)

def lowered (l : List Char) : String := env.toLowercase (String.ofList l)

/-- The source and the flag of a regex, after its opening slash: up to the last
slash, `i` among what follows it. -/
def regexParts (inner : List Char) : List Char × Bool :=
  if inner.contains '/' then
    (((inner.reverse.dropWhile (· ≠ '/')).drop 1).reverse, (inner.reverse.takeWhile (· ≠ '/')).contains 'i')
  else (inner, false)

/-- A regex, after its opening slash. -/
def parseRegex (inner : List Char) : Except FilterParseError Pattern :=
  let (source, caseInsensitive) := regexParts inner
  match env.regexError (if caseInsensitive then "(?i)" ++ String.ofList source else String.ofList source) with
  | some message => .error (.invalidRegex message)
  | none => .ok (.regex (String.ofList source) caseInsensitive)

/-- A `/regex/` or a plain substring. -/
def parsePattern (l : List Char) : Except FilterParseError Pattern :=
  match l with
  | '/' :: inner => parseRegex env inner
  | _ => .ok (.substring (lowered env l))

def parseSelector (s : String) : Selector :=
  if s = "m" then .message
  else if s = "fm" then .fullMessage
  else if s = "mfm" then .messageOrFull
  else if s = "h" then .host
  else if s = "fa" then .facility
  else if s = "fi" then .file
  else if s = "ln" then .line
  else if s = "sn" then .spanName
  else if s = "sv" then .serviceName
  else if s = "st" then .spanStatus
  else if s = "sk" then .spanKind
  else .additionalField s

/-- `Level::from_name`. -/
def levelFromName (name : String) : Option Level :=
  let upper := env.toUppercase name
  if upper = "ERROR" then some .error
  else if upper = "WARN" ∨ upper = "WARNING" then some .warn
  else if upper = "INFO" then some .info
  else if upper = "DEBUG" then some .debug
  else if upper = "TRACE" then some .trace
  else none

def parseLevel (op : LevelOp) (rest : List Char) : Except FilterParseError Qualifier :=
  match levelFromName env (String.ofList rest) with
  | none => .error (.unknownLevel (String.ofList rest))
  | some level => .ok (.levelFilter op level)

def parseDuration (op : DurationOp) (rest : List Char) : Except FilterParseError Qualifier :=
  match env.parseF64 (String.ofList rest) with
  | none => .error (.invalidLevelSyntax ("invalid duration value: " ++ String.ofList rest))
  | some ms => .ok (.durationFilter op ms)

/-- The name of a bookmark or cursor token. -/
def parseName (rest : List Char) : Except FilterParseError String :=
  let name := String.ofList (trim rest)
  if name.isEmpty then .error .emptyBookmarkName
  else if !isValidBookmarkToken name then .error (.invalidBookmarkName name)
  else .ok name

/-- `selector=pattern`, at the first `=`; a token that starts with one is a
bare substring. -/
def parseSelected (token : List Char) : Except FilterParseError Qualifier :=
  match splitOnce '=' token with
  | none => .ok (.barePattern (.substring (lowered env token)))
  | some (left, right) =>
    let lhs := trim left
    let rhs := trim right
    if lhs.isEmpty then .ok (.barePattern (.substring (lowered env token)))
    else if lhs.getLast? = some '>' ∨ lhs.getLast? = some '<' then
      .error (.unknownComparisonSelector (String.ofList lhs))
    else
      match parsePattern env (if isQuoted rhs then inside rhs else rhs) with
      | .error e => .error e
      | .ok pattern => .ok (.selectorPattern (parseSelector (String.ofList lhs)) pattern)

/-- A token that is no comparison: quoted, a regex, or with a selector. -/
def parsePlain (token : List Char) : Except FilterParseError Qualifier :=
  if isQuoted token then .ok (.barePattern (.substring (lowered env (inside token))))
  else if token.head? = some '/' then
    match parsePattern env token with
    | .error e => .error e
    | .ok pattern => .ok (.barePattern pattern)
  else parseSelected env token

/-- One token, by how it starts. -/
def parseToken (token : List Char) : Except FilterParseError Qualifier :=
  let token := trim token
  match afterStart "l>=" token, afterStart "l<=" token, afterStart "l=" token with
  | some rest, _, _ => parseLevel env .gte rest
  | none, some rest, _ => parseLevel env .lte rest
  | none, none, some rest => parseLevel env .eq rest
  | none, none, none =>
  match afterStart "d>=" token, afterStart "d<=" token with
  | some rest, _ => parseDuration env .gte rest
  | none, some rest => parseDuration env .lte rest
  | none, none =>
  match afterStart "b>=" token, afterStart "b<=" token, afterStart "c>=" token with
  | some rest, _, _ => (parseName rest).map (.bookmarkFilter .gte)
  | none, some rest, _ => (parseName rest).map (.bookmarkFilter .lte)
  | none, none, some rest => (parseName rest).map .cursorFilter
  | none, none, none =>
    if (afterStart "c<=" token).isSome then .error .cursorLteNotSupported else parsePlain env token

/-! ### Filters -/

def Qualifier.isSpan : Qualifier → Bool
  | .selectorPattern s _ =>
    match s with
    | .spanName | .serviceName | .spanStatus | .spanKind => true
    | _ => false
  | .durationFilter _ _ => true
  | _ => false

def Qualifier.isLog : Qualifier → Bool
  | .selectorPattern s _ =>
    match s with
    | .message | .fullMessage | .messageOrFull | .host | .facility | .file | .line => true
    | _ => false
  | .levelFilter _ _ => true
  | _ => false

def Qualifier.isCursor : Qualifier → Bool
  | .cursorFilter _ => true
  | _ => false

/-- The loop over the tokens; blank ones are skipped. -/
def parseTokens : List (List Char) → Except FilterParseError (List Qualifier)
  | [] => .ok []
  | token :: tokens =>
    if (trim token).isEmpty then parseTokens tokens
    else
      match parseToken env (trim token) with
      | .error e => .error e
      | .ok q =>
        match parseTokens tokens with
        | .error e => .error e
        | .ok qs => .ok (q :: qs)

def parseFilter (input : String) : Except FilterParseError ParsedFilter :=
  let text := trim input.toList
  if text.isEmpty then .error .empty
  else if text = "ALL".toList then .ok .all
  else if text = "NONE".toList then .ok .none
  else
    match splitOnCommas text [] [] false with
    | .error e => .error e
    | .ok tokens =>
      match parseTokens env tokens with
      | .error e => .error e
      | .ok qs =>
        if qs.isEmpty then .error .empty
        else if qs.any Qualifier.isSpan && qs.any Qualifier.isLog then .error .mixedLogSpanSelectors
        else if qs.countP Qualifier.isCursor > 1 then .error .multipleCursorQualifiers
        else .ok (.qualifiers qs)

/-- The parser as the session requests use it, its error as text. -/
def ParseEnv.parse (input : String) : Except String ParsedFilter :=
  match parseFilter env input with
  | .error e => .error e.text
  | .ok f => .ok f

end Parsing

/-- Whether a qualifier reads a bookmark or a cursor. -/
def ParsedFilter.containsBookmarkQualifier : ParsedFilter → Bool
  | .qualifiers qs => qs.any fun q =>
    match q with
    | .bookmarkFilter _ _ => true
    | .cursorFilter _ => true
    | _ => false
  | _ => false

/-! ### What is accepted -/

/-- What the parser promises of one qualifier. -/
def Qualifier.Accepted : Qualifier → Prop
  | .bookmarkFilter _ name => isValidBookmarkToken name = true
  | .cursorFilter name => isValidBookmarkToken name = true
  | .seqFilter _ _ => False
  | .cursorSeq _ => False
  | _ => True

variable {env : ParseEnv}

theorem parseName_valid {rest : List Char} {name : String} (h : parseName rest = .ok name) :
    isValidBookmarkToken name = true := by
  unfold parseName at h
  dsimp only at h
  split_ifs at h with hempty hvalid
  obtain rfl := Except.ok.inj h
  simpa using hvalid

theorem inside_sublist (l : List Char) : (inside l).Sublist l :=
  (List.dropLast_sublist _).trans (List.tail_sublist l)

/-- `p` is read from a part of `l`, as a substring or a regex. -/
def PatternOf (env : ParseEnv) (l : List Char) (p : Pattern) : Prop :=
  ∃ k, k.Sublist l ∧ (p = .substring (lowered env k) ∨ parsePattern env k = .ok p)

/-- What a token that is no comparison is read as. -/
theorem parsePlain_cases {token : List Char} {q : Qualifier} (h : parsePlain env token = .ok q) :
    (∃ p, q = .barePattern p ∧ PatternOf env token p) ∨
      ∃ left right p, splitOnce '=' token = some (left, right) ∧
        q = .selectorPattern (parseSelector (String.ofList (trim left))) p ∧ PatternOf env right p := by
  unfold parsePlain at h
  split_ifs at h
  · exact .inl ⟨_, (Except.ok.inj h).symm, _, inside_sublist token, .inl rfl⟩
  · split at h
    · cases h
    · rename_i p hp
      exact .inl ⟨p, (Except.ok.inj h).symm, token, List.Sublist.refl token, .inr hp⟩
  · unfold parseSelected at h
    dsimp only at h
    split at h
    · exact .inl ⟨_, (Except.ok.inj h).symm, token, List.Sublist.refl token, .inl rfl⟩
    · rename_i left right hs
      by_cases hempty : (trim left).isEmpty
      · rw [if_pos hempty] at h
        exact .inl ⟨_, (Except.ok.inj h).symm, token, List.Sublist.refl token, .inl rfl⟩
      by_cases hop : (trim left).getLast? = some '>' ∨ (trim left).getLast? = some '<'
      · rw [if_neg hempty, if_pos hop] at h
        cases h
      rw [if_neg hempty, if_neg hop] at h
      have hpart : (if isQuoted (trim right) then inside (trim right) else trim right).Sublist right := by
        split_ifs
        · exact (inside_sublist _).trans (trim_sublist right)
        · exact trim_sublist right
      split at h
      · cases h
      · rename_i p hp
        exact .inr ⟨left, right, p, hs, (Except.ok.inj h).symm, _, hpart, .inr hp⟩

theorem parseNamed_cases {rest : List Char} {f : String → Qualifier} {q : Qualifier}
    (h : (parseName rest).map f = .ok q) : ∃ name, isValidBookmarkToken name = true ∧ q = f name := by
  cases hn : parseName rest with
  | error e =>
    rw [hn] at h
    cases h
  | ok name =>
    rw [hn] at h
    exact ⟨name, parseName_valid hn, (Except.ok.inj h).symm⟩

theorem parseLevel_cases {op : LevelOp} {rest : List Char} {q : Qualifier} (h : parseLevel env op rest = .ok q) :
    ∃ level, q = .levelFilter op level := by
  unfold parseLevel at h
  split at h
  · cases h
  · exact ⟨_, (Except.ok.inj h).symm⟩

theorem parseDuration_cases {op : DurationOp} {rest : List Char} {q : Qualifier}
    (h : parseDuration env op rest = .ok q) : ∃ t ms, env.parseF64 t = some ms ∧ q = .durationFilter op ms := by
  unfold parseDuration at h
  split at h
  · cases h
  · rename_i ms hms
    exact ⟨_, ms, hms, (Except.ok.inj h).symm⟩

/-- **What a token is read as**: a level, a duration, a bookmark or cursor with
a valid name, or what no comparison is. -/
theorem parseToken_cases {token : List Char} {q : Qualifier} (h : parseToken env token = .ok q) :
    (∃ op level, q = .levelFilter op level) ∨
      (∃ op t ms, env.parseF64 t = some ms ∧ q = .durationFilter op ms) ∨
      (∃ op name, isValidBookmarkToken name = true ∧ q = .bookmarkFilter op name) ∨
      (∃ name, isValidBookmarkToken name = true ∧ q = .cursorFilter name) ∨ parsePlain env (trim token) = .ok q := by
  unfold parseToken at h
  dsimp only at h
  split at h
  · exact .inl ⟨_, parseLevel_cases h⟩
  · exact .inl ⟨_, parseLevel_cases h⟩
  · exact .inl ⟨_, parseLevel_cases h⟩
  · split at h
    · exact .inr (.inl ⟨_, parseDuration_cases h⟩)
    · exact .inr (.inl ⟨_, parseDuration_cases h⟩)
    · split at h
      · exact .inr (.inr (.inl ⟨_, parseNamed_cases h⟩))
      · exact .inr (.inr (.inl ⟨_, parseNamed_cases h⟩))
      · exact .inr (.inr (.inr (.inl (parseNamed_cases h))))
      · split_ifs at h
        exact .inr (.inr (.inr (.inr h)))

/-- **A token the parser reads is one it may**: a name it takes is valid, and
it makes no internal bound. -/
theorem parseToken_accepted {token : List Char} {q : Qualifier} (h : parseToken env token = .ok q) : q.Accepted := by
  obtain ⟨_, _, rfl⟩ | ⟨_, _, _, -, rfl⟩ | ⟨_, _, hname, rfl⟩ | ⟨_, hname, rfl⟩ | h := parseToken_cases h
  · trivial
  · trivial
  · exact hname
  · exact hname
  · obtain ⟨_, rfl, -⟩ | ⟨_, _, _, -, rfl, -⟩ := parsePlain_cases h
    · trivial
    · trivial

/-- What holds of every qualifier read from a token holds of all of a list. -/
theorem parseTokens_forall {P : Qualifier → Prop} (hP : ∀ {token q}, parseToken env token = .ok q → P q) :
    ∀ {tokens : List (List Char)} {qs : List Qualifier}, parseTokens env tokens = .ok qs → ∀ q ∈ qs, P q
  | [], qs, h, q, hq => by
    obtain rfl := Except.ok.inj h
    cases hq
  | token :: tokens, qs, h, q, hq => by
    unfold parseTokens at h
    split_ifs at h
    · exact parseTokens_forall hP h q hq
    · split at h
      · cases h
      · rename_i q' hq'
        split at h
        · cases h
        · rename_i qs' hqs'
          obtain rfl := Except.ok.inj h
          rcases List.mem_cons.mp hq with rfl | hq
          · exact hP hq'
          · exact parseTokens_forall hP hqs' q hq

/-- What `parse_filter` can return: one of the two words, or qualifiers that
passed its three checks. -/
theorem parseFilter_cases {input : String} {f : ParsedFilter} (h : parseFilter env input = .ok f) :
    f = .all ∨ f = .none ∨ ∃ tokens qs, parseTokens env tokens = .ok qs ∧ qs.isEmpty = false ∧
      (qs.any Qualifier.isSpan && qs.any Qualifier.isLog) = false ∧ qs.countP Qualifier.isCursor ≤ 1 ∧
      f = .qualifiers qs := by
  unfold parseFilter at h
  dsimp only at h
  split_ifs at h
  · exact .inl (Except.ok.inj h).symm
  · exact .inr (.inl (Except.ok.inj h).symm)
  · split at h
    · cases h
    · split at h
      · cases h
      · rename_i tokens _ _ qs hqs
        split_ifs at h with h4 h5 h6
        refine .inr (.inr ⟨tokens, qs, hqs, ?_, ?_, Nat.le_of_not_lt h6, (Except.ok.inj h).symm⟩)
        · exact Bool.eq_false_of_not_eq_true h4
        · exact Bool.eq_false_of_not_eq_true h5

/-- **What the parser accepts is well formed**, for every text. -/
theorem parseFilter_accepted {input : String} {f : ParsedFilter} (h : parseFilter env input = .ok f) : f.Accepted := by
  obtain rfl | rfl | ⟨tokens, qs, hqs, hne, -, hcursor, rfl⟩ := parseFilter_cases h
  · trivial
  · trivial
  · have hall := parseTokens_forall (P := Qualifier.Accepted) parseToken_accepted hqs
    refine ⟨?_, fun op name hq => hall _ hq, fun name hq => hall _ hq, hcursor, fun q hq => ?_⟩
    · simpa using hne
    · have hacc := hall q hq
      cases q with
      | seqFilter op v => exact hacc.elim
      | cursorSeq after => exact hacc.elim
      | _ => exact ⟨rfl, rfl⟩

/-- The parser never writes the internal bound of a cursor. -/
theorem parseFilter_fromParser {input : String} {f : ParsedFilter} (h : parseFilter env input = .ok f) : f.FromParser := by
  have hacc := parseFilter_accepted h
  cases f with
  | all => trivial
  | none => trivial
  | qualifiers qs =>
    intro after hmem
    obtain ⟨-, -, -, -, hbounds⟩ := hacc
    have hlower := (hbounds _ hmem).1
    cases hlower

/-! ### The filters every session starts with -/

def errorFilter : String := "l>=ERROR"

def panicFilter : String := "/panic|unwrap failed|stack backtrace/"

/-- A text that is one token is the filter of its qualifier, when that may
stand alone. -/
theorem parseFilter_single {text : String} {q : Qualifier} (htrim : trim text.toList = text.toList)
    (hne : text.toList.isEmpty = false ∧ text.toList ≠ "ALL".toList ∧ text.toList ≠ "NONE".toList)
    (hsplit : splitOnCommas text.toList [] [] false = .ok [text.toList])
    (hq : parseToken env text.toList = .ok q) (halone : (q.isSpan && q.isLog) = false) :
    parseFilter env text = .ok (.qualifiers [q]) := by
  obtain ⟨h1, h2, h3⟩ := hne
  have htokens : parseTokens env [text.toList] = .ok [q] := by
    unfold parseTokens
    rw [htrim, hq, h1]
    rfl
  have hcursor : ¬ [q].countP Qualifier.isCursor > 1 := by
    have := List.countP_le_length (p := Qualifier.isCursor) (l := [q])
    simpa using this
  unfold parseFilter
  dsimp only
  rw [htrim, if_neg (by simp [h1]), if_neg h2, if_neg h3, hsplit]
  dsimp only
  rw [htokens]
  dsimp only
  rw [if_neg (by simp), if_neg (by simpa using halone), if_neg hcursor]

theorem parseFilter_errorFilter (env : ParseEnv) :
    parseFilter env errorFilter = .ok (.qualifiers [.levelFilter .gte .error]) := by
  have hlevel : parseLevel env .gte "ERROR".toList = .ok (.levelFilter .gte .error) := by
    unfold parseLevel levelFromName
    rw [String.ofList_toList, env.upper_error]
    rfl
  exact parseFilter_single (by decide) (by decide) rfl hlevel rfl

theorem parseFilter_panicFilter (env : ParseEnv) :
    parseFilter env panicFilter = .ok (.qualifiers [.barePattern (.regex panicSource false)]) := by
  have hparts : regexParts (panicSource.toList ++ ['/']) = (panicSource.toList, false) := by decide
  have hpattern : parsePattern env ('/' :: (panicSource.toList ++ ['/'])) = .ok (.regex panicSource false) := by
    show parseRegex env (panicSource.toList ++ ['/']) = _
    unfold parseRegex
    rw [hparts]
    dsimp only
    rw [if_neg Bool.false_ne_true, String.ofList_toList, env.panic_compiles]
  have htoken : parseToken env panicFilter.toList = .ok (.barePattern (.regex panicSource false)) := by
    show parsePlain env panicFilter.toList = _
    have hlist : panicFilter.toList = '/' :: (panicSource.toList ++ ['/']) := by decide
    unfold parsePlain
    rw [if_neg (by decide), if_pos (by decide), hlist, hpattern]
  exact parseFilter_single (by decide) (by decide) rfl htoken rfl

end Logmon
