/-
# The filter builder of the SDK

`sdk/src/filter.rs`: each method of `FilterBuilder` appends one qualifier as
text, and `build` joins them for the broker's `parse_filter`. A run of method
calls is a list of `FilterCall`s; beside the text a call renders to stands the
qualifier it asks for.

`FilterCall.Survives` is what a call's arguments must be like for the text to
say what was asked. Nothing is asked of levels, numbers, names of bookmarks;
a text may hold no quote, not begin as a regex and, outside quotes, not be
trimmed; a regex may hold no comma outside quotes of its own.

Key definitions: `esc`, `regexLit`, `FilterBuilder`, `FilterCall`,
`FilterCall.asked`, `FilterCall.Survives`.
-/
import Logmon.Filter.Tokens

namespace Logmon
namespace Sdk

open Lib

/-- The levels the parser takes. -/
inductive Level
  | error
  | warn
  | info
  | debug
  | trace
  deriving DecidableEq

def Level.asStr : Level → String
  | .error => "ERROR"
  | .warn => "WARN"
  | .info => "INFO"
  | .debug => "DEBUG"
  | .trace => "TRACE"

inductive FilterSpanStatus
  | ok
  | error
  | unset
  deriving DecidableEq

def FilterSpanStatus.asStr : FilterSpanStatus → String
  | .ok => "ok"
  | .error => "error"
  | .unset => "unset"

inductive FilterSpanKind
  | server
  | client
  | producer
  | consumer
  | internal
  deriving DecidableEq

def FilterSpanKind.asStr : FilterSpanKind → String
  | .server => "server"
  | .client => "client"
  | .producer => "producer"
  | .consumer => "consumer"
  | .internal => "internal"

/-! ### Texts -/

/-- `replace('"', "\\\"")`. -/
def escaped (l : List Char) : List Char := l.flatMap fun c => if c = '"' then ['\\', '"'] else [c]

/-- A value, quoted if it has a comma or a quote. -/
def esc (value : String) : String :=
  if value.toList.contains ',' || value.toList.contains '"' then
    String.ofList ('"' :: (escaped value.toList ++ ['"']))
  else value

/-- `trim_matches('/')`. -/
def regexBody (pattern : String) : List Char :=
  ((pattern.toList.dropWhile (· = '/')).reverse.dropWhile (· = '/')).reverse

/-- A regex as `/pattern/` or `/pattern/i`. -/
def regexLit (pattern : String) (caseInsensitive : Bool) : String :=
  if caseInsensitive then "/" ++ String.ofList (regexBody pattern) ++ "/i"
  else "/" ++ String.ofList (regexBody pattern) ++ "/"

/-! ### The builder -/

structure FilterBuilder where
  qualifiers : List String

def Filter.builder : FilterBuilder := ⟨[]⟩

namespace FilterBuilder

def build (b : FilterBuilder) : String := if b.qualifiers.isEmpty then "" else ", ".intercalate b.qualifiers

def push (b : FilterBuilder) (qualifier : String) : FilterBuilder := { b with qualifiers := b.qualifiers ++ [qualifier] }

/-- `key=` with a substring. -/
def pushText (b : FilterBuilder) (key sub : String) : FilterBuilder := b.push (key ++ "=" ++ esc sub)

/-- `key=` with a regex. -/
def pushRegex (b : FilterBuilder) (key r : String) (ci : Bool) : FilterBuilder := b.push (key ++ "=" ++ regexLit r ci)

variable (b : FilterBuilder)

def matchAll : FilterBuilder := b.push "ALL"
def matchNone : FilterBuilder := b.push "NONE"

def levelAtLeast (l : Level) : FilterBuilder := b.push ("l>=" ++ l.asStr)
def levelAtMost (l : Level) : FilterBuilder := b.push ("l<=" ++ l.asStr)
def levelEq (l : Level) : FilterBuilder := b.push ("l=" ++ l.asStr)

def pattern (sub : String) : FilterBuilder := b.push (esc sub)
def patternRegex (regex : String) (caseInsensitive : Bool) : FilterBuilder := b.push (regexLit regex caseInsensitive)

def message (sub : String) : FilterBuilder := b.pushText "m" sub
def messageRegex (r : String) (ci : Bool) : FilterBuilder := b.pushRegex "m" r ci
def fullMessage (sub : String) : FilterBuilder := b.pushText "fm" sub
def fullMessageRegex (r : String) (ci : Bool) : FilterBuilder := b.pushRegex "fm" r ci
def messageOrFull (sub : String) : FilterBuilder := b.pushText "mfm" sub
def messageOrFullRegex (r : String) (ci : Bool) : FilterBuilder := b.pushRegex "mfm" r ci
def host (sub : String) : FilterBuilder := b.pushText "h" sub
def hostRegex (r : String) (ci : Bool) : FilterBuilder := b.pushRegex "h" r ci
def facility (sub : String) : FilterBuilder := b.pushText "fa" sub
def facilityRegex (r : String) (ci : Bool) : FilterBuilder := b.pushRegex "fa" r ci
def file (sub : String) : FilterBuilder := b.pushText "fi" sub
def fileRegex (r : String) (ci : Bool) : FilterBuilder := b.pushRegex "fi" r ci
def line (n : UInt32) : FilterBuilder := b.push ("ln=" ++ toString n.toNat)

def spanName (sub : String) : FilterBuilder := b.pushText "sn" sub
def spanNameRegex (r : String) (ci : Bool) : FilterBuilder := b.pushRegex "sn" r ci
def service (sub : String) : FilterBuilder := b.pushText "sv" sub
def serviceRegex (r : String) (ci : Bool) : FilterBuilder := b.pushRegex "sv" r ci
def spanStatus (s : FilterSpanStatus) : FilterBuilder := b.push ("st=" ++ s.asStr)
def spanKind (k : FilterSpanKind) : FilterBuilder := b.push ("sk=" ++ k.asStr)
def durationAtLeastMs (ms : UInt32) : FilterBuilder := b.push ("d>=" ++ toString ms.toNat)
def durationAtMostMs (ms : UInt32) : FilterBuilder := b.push ("d<=" ++ toString ms.toNat)

def bookmarkAfter (name : String) : FilterBuilder := b.push ("b>=" ++ name)
def bookmarkBefore (name : String) : FilterBuilder := b.push ("b<=" ++ name)
def cursor (name : String) : FilterBuilder := b.push ("c>=" ++ name)

def additionalField (name value : String) : FilterBuilder := b.pushText name value
def additionalFieldRegex (name regex : String) (ci : Bool) : FilterBuilder := b.pushRegex name regex ci

end FilterBuilder

/-! ### Calls -/

/-- The selectors with a method for a substring and one for a regex. -/
inductive TextSelector
  | message
  | fullMessage
  | messageOrFull
  | host
  | facility
  | file
  | spanName
  | service
  deriving DecidableEq

/-- A call of one of the builder's methods. -/
inductive FilterCall
  | matchAll
  | matchNone
  | levelAtLeast (l : Level)
  | levelAtMost (l : Level)
  | levelEq (l : Level)
  | pattern (sub : String)
  | patternRegex (regex : String) (caseInsensitive : Bool)
  | text (selector : TextSelector) (sub : String)
  | textRegex (selector : TextSelector) (r : String) (ci : Bool)
  | line (n : UInt32)
  | spanStatus (s : FilterSpanStatus)
  | spanKind (k : FilterSpanKind)
  | durationAtLeastMs (ms : UInt32)
  | durationAtMostMs (ms : UInt32)
  | bookmarkAfter (name : String)
  | bookmarkBefore (name : String)
  | cursor (name : String)
  | additionalField (name value : String)
  | additionalFieldRegex (name regex : String) (ci : Bool)
  deriving DecidableEq

def FilterBuilder.text (b : FilterBuilder) : TextSelector → String → FilterBuilder
  | .message => b.message
  | .fullMessage => b.fullMessage
  | .messageOrFull => b.messageOrFull
  | .host => b.host
  | .facility => b.facility
  | .file => b.file
  | .spanName => b.spanName
  | .service => b.service

def FilterBuilder.textRegex (b : FilterBuilder) : TextSelector → String → Bool → FilterBuilder
  | .message => b.messageRegex
  | .fullMessage => b.fullMessageRegex
  | .messageOrFull => b.messageOrFullRegex
  | .host => b.hostRegex
  | .facility => b.facilityRegex
  | .file => b.fileRegex
  | .spanName => b.spanNameRegex
  | .service => b.serviceRegex

def FilterBuilder.call (b : FilterBuilder) : FilterCall → FilterBuilder
  | .matchAll => b.matchAll
  | .matchNone => b.matchNone
  | .levelAtLeast l => b.levelAtLeast l
  | .levelAtMost l => b.levelAtMost l
  | .levelEq l => b.levelEq l
  | .pattern sub => b.pattern sub
  | .patternRegex regex ci => b.patternRegex regex ci
  | .text selector sub => b.text selector sub
  | .textRegex selector r ci => b.textRegex selector r ci
  | .line n => b.line n
  | .spanStatus s => b.spanStatus s
  | .spanKind k => b.spanKind k
  | .durationAtLeastMs ms => b.durationAtLeastMs ms
  | .durationAtMostMs ms => b.durationAtMostMs ms
  | .bookmarkAfter name => b.bookmarkAfter name
  | .bookmarkBefore name => b.bookmarkBefore name
  | .cursor name => b.cursor name
  | .additionalField name value => b.additionalField name value
  | .additionalFieldRegex name regex ci => b.additionalFieldRegex name regex ci

/-- What a sequence of calls builds. -/
def buildOf (calls : List FilterCall) : String := (calls.foldl FilterBuilder.call Filter.builder).build

/-! ### What is asked for -/

def Level.parsed : Level → Logmon.Level
  | .error => .error
  | .warn => .warn
  | .info => .info
  | .debug => .debug
  | .trace => .trace

def TextSelector.parsed : TextSelector → Selector
  | .message => .message
  | .fullMessage => .fullMessage
  | .messageOrFull => .messageOrFull
  | .host => .host
  | .facility => .facility
  | .file => .file
  | .spanName => .spanName
  | .service => .serviceName

section Asked

variable (env : ParseEnv)

def askedText (sub : String) : Pattern := .substring (env.toLowercase sub)

def askedRegex (r : String) (ci : Bool) : Pattern := .regex (String.ofList (regexBody r)) ci

/-- The qualifier a call asks for; the two words ask for a filter of their own. -/
def FilterCall.asked : FilterCall → Option Qualifier
  | .matchAll => none
  | .matchNone => none
  | .levelAtLeast l => some (.levelFilter .gte l.parsed)
  | .levelAtMost l => some (.levelFilter .lte l.parsed)
  | .levelEq l => some (.levelFilter .eq l.parsed)
  | .pattern sub => some (.barePattern (askedText env sub))
  | .patternRegex regex ci => some (.barePattern (askedRegex regex ci))
  | .text selector sub => some (.selectorPattern selector.parsed (askedText env sub))
  | .textRegex selector r ci => some (.selectorPattern selector.parsed (askedRegex r ci))
  | .line n => some (.selectorPattern .line (askedText env (toString n.toNat)))
  | .spanStatus s => some (.selectorPattern .spanStatus (askedText env s.asStr))
  | .spanKind k => some (.selectorPattern .spanKind (askedText env k.asStr))
  | .durationAtLeastMs ms => some (.durationFilter .gte (.finite ms.toNat))
  | .durationAtMostMs ms => some (.durationFilter .lte (.finite ms.toNat))
  | .bookmarkAfter name => some (.bookmarkFilter .gte name)
  | .bookmarkBefore name => some (.bookmarkFilter .lte name)
  | .cursor name => some (.cursorFilter name)
  | .additionalField name value => some (.selectorPattern (.additionalField name) (askedText env value))
  | .additionalFieldRegex name regex ci => some (.selectorPattern (.additionalField name) (askedRegex regex ci))

/-- The filter a sequence of calls asks for: one qualifier for each, in order. -/
def askedFilter : List FilterCall → ParsedFilter
  | [.matchAll] => .all
  | [.matchNone] => .none
  | calls => .qualifiers (calls.filterMap (FilterCall.asked env))

/-- A text with something to see in it. -/
def NonBlank (s : String) : Prop := trim s.toList ≠ []

def Compiles (r : String) (ci : Bool) : Prop :=
  env.regexError (if ci then "(?i)" ++ String.ofList (regexBody r) else String.ofList (regexBody r)) = none

/-- The arguments the parser's rules allow. -/
def FilterCall.Allowed : FilterCall → Prop
  | .pattern sub => NonBlank sub
  | .patternRegex regex ci => Compiles env regex ci
  | .text _ sub => NonBlank sub
  | .textRegex _ r ci => Compiles env r ci
  | .bookmarkAfter name => isValidBookmarkToken name = true
  | .bookmarkBefore name => isValidBookmarkToken name = true
  | .cursor name => isValidBookmarkToken name = true
  | .additionalField name value => NonBlank name ∧ NonBlank value
  | .additionalFieldRegex name regex ci => NonBlank name ∧ Compiles env regex ci
  | _ => True

/-- The sequences of calls the parser's rules allow together. -/
structure AllowedTogether (calls : List FilterCall) : Prop where
  some_call : calls ≠ []
  word_alone : FilterCall.matchAll ∈ calls ∨ FilterCall.matchNone ∈ calls → calls.length = 1
  each : ∀ c ∈ calls, c.Allowed env
  one_kind : ((calls.filterMap (FilterCall.asked env)).any Qualifier.isSpan &&
    (calls.filterMap (FilterCall.asked env)).any Qualifier.isLog) = false
  one_cursor : (calls.filterMap (FilterCall.asked env)).countP Qualifier.isCursor ≤ 1

end Asked

/-! ### What survives -/

/-- A text that is read back after a selector. -/
def TextSurvives (l : List Char) : Prop := '"' ∉ l ∧ l.head? ≠ some '/' ∧ (',' ∈ l ∨ trim l = l)

/-- A text that is read back by itself. -/
def PatternSurvives (l : List Char) : Prop :=
  '"' ∉ l ∧ (',' ∈ l ∨ trim l = l ∧ l.head? ≠ some '/' ∧ ('=' ∈ l → l.head? = some '='))

/-- The names of the selectors. -/
def selectorNames : List String := ["m", "fm", "mfm", "h", "fa", "fi", "ln", "sn", "sv", "st", "sk"]

/-- A name of a field of its own. -/
def NameSurvives (name : String) : Prop :=
  (name.toList ≠ [] ∧ trim name.toList = name.toList ∧ '=' ∉ name.toList) ∧ name.toList.head? ≠ some '/' ∧
    (name.toList.getLast? ≠ some '>' ∧ name.toList.getLast? ≠ some '<') ∧ name ≠ "l" ∧ name ∉ selectorNames

/-- No comma outside double quotes, and the quotes closed. -/
def CommasQuoted (l : List Char) : Prop := closed ',' '"' false l = true

instance (l : List Char) : Decidable (TextSurvives l) := inferInstanceAs (Decidable (_ ∧ _))

instance (l : List Char) : Decidable (PatternSurvives l) := inferInstanceAs (Decidable (_ ∧ _))

instance (l : List Char) : Decidable (CommasQuoted l) := inferInstanceAs (Decidable (_ = _))

instance (name : String) : Decidable (NameSurvives name) := inferInstanceAs (Decidable (_ ∧ _))

instance (s : String) : Decidable (NonBlank s) := inferInstanceAs (Decidable (_ ≠ _))

/-- The arguments with which a call is read back. -/
def FilterCall.Survives : FilterCall → Prop
  | .pattern sub => PatternSurvives sub.toList
  | .patternRegex regex _ => CommasQuoted (regexBody regex)
  | .text _ sub => TextSurvives sub.toList
  | .textRegex _ r _ => CommasQuoted (regexBody r)
  | .additionalField name value =>
    NameSurvives name ∧ TextSurvives value.toList ∧ CommasQuoted name.toList ∧
      ¬ (name.toList.head? = some '"' ∧ ',' ∈ value.toList)
  | .additionalFieldRegex name regex _ => NameSurvives name ∧ CommasQuoted (name.toList ++ regexBody regex)
  | _ => True

/-- A pattern that reads as one of the two words, by itself. -/
def LoneWord (calls : List FilterCall) : Prop := calls = [.pattern "ALL"] ∨ calls = [.pattern "NONE"]

instance (calls : List FilterCall) : Decidable (LoneWord calls) := inferInstanceAs (Decidable (_ ∨ _))

end Sdk
end Logmon
