/-
# Triggers

`engine/trigger.rs`, as the log processor uses it: each trigger of a session
is evaluated once for each entry, and debounced by its own post-window.

Key definitions: `Trigger`, `TriggerMatch`, `TriggerManager.evaluate`,
`TriggerManager.remove`, `TriggerManager.maxPreWindow`.
-/
import Logmon.Filter.Matcher

namespace Logmon

structure Trigger where
  id : ℕ
  condition : ParsedFilter
  filterString : String
  preWindow : ℕ
  postWindow : ℕ
  notifyContext : ℕ
  description : Option String
  oneshot : Bool
  matchCount : ℕ
  /-- Entries remaining in this trigger's own post-window. -/
  postRemaining : ℕ
  deriving DecidableEq

structure TriggerMatch where
  id : ℕ
  description : Option String
  filterString : String
  preWindow : ℕ
  postWindow : ℕ
  notifyContext : ℕ
  oneshot : Bool
  deriving DecidableEq

structure TriggerManager where
  triggers : List Trigger
  nextId : ℕ
  deriving DecidableEq

def Trigger.toMatch (t : Trigger) : TriggerMatch :=
  { id := t.id, description := t.description, filterString := t.filterString, preWindow := t.preWindow,
    postWindow := t.postWindow, notifyContext := t.notifyContext, oneshot := t.oneshot }

/-- One trigger sees one entry: inside its window it only counts down. -/
def Trigger.see (E : TextEnv) (entry : LogEntry) (t : Trigger) : Trigger × Option TriggerMatch :=
  if t.postRemaining ≠ 0 then ({ t with postRemaining := t.postRemaining - 1 }, none)
  else if matchesEntry E t.condition entry then
    ({ t with matchCount := t.matchCount + 1, postRemaining := t.postWindow }, some t.toMatch)
  else (t, none)

namespace TriggerManager

/-- Every trigger sees the entry; those that fired. -/
def evaluate (E : TextEnv) (m : TriggerManager) (entry : LogEntry) : TriggerManager × List TriggerMatch :=
  ({ m with triggers := m.triggers.map fun t => (t.see E entry).1 },
   m.triggers.filterMap fun t => (t.see E entry).2)

/-- Without the trigger `id`, when there is one. -/
def remove (m : TriggerManager) (id : ℕ) : TriggerManager :=
  { m with triggers := m.triggers.eraseP fun t => t.id = id }

def maxPreWindow (m : TriggerManager) : ℕ := (m.triggers.map Trigger.preWindow).foldl max 0

end TriggerManager

end Logmon
