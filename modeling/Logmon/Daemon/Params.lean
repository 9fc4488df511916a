/-
# Reading a request's parameters

The readers of `daemon/rpc_handler.rs`: an absent parameter and `null` are the
same, a value of another type is refused by the type it has, and never read
as absent. On a 64-bit host every `u64` is a `usize`.

Key definitions: `Value`, `optOf`, `reqStr`, `optBool`, `windowCount`.
Key theorems: `bind_eq_ok`, `windowCount_le`.
-/
import Mathlib.Data.Nat.Notation
import Mathlib.Order.MinMax
import Mathlib.Tactic.Linarith

namespace Logmon
namespace Rpc

/-- A `serde_json` value; of a number, what `as_u64` makes of it. -/
inductive Value
  | null
  | bool (b : Bool)
  | number (asU64 : Option UInt64)
  | string (s : String)
  | array (items : List Value)
  | object (fields : List (String × Value))

namespace Value

/-- `get`: a field of an object, and nothing of any other value. -/
def get? : Value → String → Option Value
  | .object fields, key => (fields.find? fun p => p.1 = key).map Prod.snd
  | _, _ => none

def asStr : Value → Option String
  | .string s => some s
  | _ => none

def asBool : Value → Option Bool
  | .bool b => some b
  | _ => none

def asU64 : Value → Option ℕ
  | .number n => n.map UInt64.toNat
  | _ => none

def asArray : Value → Option (List Value)
  | .array items => some items
  | _ => none

end Value

/-- `json_type`: how a value reads in an error. -/
def jsonType : Value → String
  | .null => "null"
  | .bool _ => "a boolean"
  | .number _ => "a number"
  | .string _ => "a string"
  | .array _ => "an array"
  | .object _ => "an object"

/-- The shape the readers share. -/
def optOf {T : Type} (params : Value) (key expected : String) (read : Value → Option T) : Except String (Option T) :=
  match params.get? key with
  | none => .ok none
  | some .null => .ok none
  | some v =>
    match read v with
    | some t => .ok (some t)
    | none => .error s!"\x60{key}\x60 must be {expected}, not {jsonType v}"

def missing (key : String) : String := s!"missing required parameter: {key}"

def optStr (params : Value) (key : String) : Except String (Option String) := optOf params key "a string" Value.asStr

def reqStr (params : Value) (key : String) : Except String String :=
  match optStr params key with
  | .error e => .error e
  | .ok none => .error (missing key)
  | .ok (some s) => .ok s

/-- A boolean sent as a string is named as one. -/
def optBool (params : Value) (key : String) : Except String (Option Bool) :=
  match params.get? key with
  | some (.string s) =>
    if s = "true" ∨ s = "false" then
      .error s!"\x60{key}\x60 must be a boolean, not the string \"{s}\" — send {s} unquoted"
    else optOf params key "a boolean" Value.asBool
  | _ => optOf params key "a boolean" Value.asBool

def optU64 (params : Value) (key : String) : Except String (Option ℕ) :=
  optOf params key "a non-negative integer" Value.asU64

/-- A chain of readers succeeds where each does. -/
theorem bind_eq_ok {α β : Type} {x : Except String α} {f : α → Except String β} {b : β} :
    x >>= f = .ok b ↔ ∃ a, x = .ok a ∧ f a = .ok b := by
  cases x with
  | error e =>
    constructor
    · intro h
      cases h
    · rintro ⟨a, h, -⟩
      cases h
  | ok a =>
    constructor
    · exact fun h => ⟨a, rfl, h⟩
    · rintro ⟨a', h, hf⟩
      obtain rfl := Except.ok.inj h
      exact hf

/-! ### The size of a case's window -/

/-- Records either side of the anchor when the request says nothing. -/
def defaultCaseWindow : ℕ := 350

/-- The most either side can ask for. -/
def maxCaseWindow : ℕ := 5000

structure WindowCount where
  value : ℕ
  clamped : Bool
  deriving DecidableEq

def windowCount (params : Value) (key : String) : Except String WindowCount :=
  match optU64 params key with
  | .error e => .error e
  | .ok n =>
    let requested := n.getD defaultCaseWindow
    .ok ⟨min requested maxCaseWindow, decide (maxCaseWindow < requested)⟩

/-- **A window is cut to its maximum**, and says so when it was. -/
theorem windowCount_le {params : Value} {key : String} {w : WindowCount} (h : windowCount params key = .ok w) :
    w.value ≤ maxCaseWindow ∧ (w.clamped = true → w.value = maxCaseWindow) := by
  unfold windowCount at h
  split at h
  · simp at h
  · obtain rfl := Except.ok.inj h
    refine ⟨min_le_right _ _, fun hc => min_eq_right ?_⟩
    exact (of_decide_eq_true hc).le

end Rpc
end Logmon
