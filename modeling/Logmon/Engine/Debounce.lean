/-
# Triggers do not interfere

The rest of `engine/trigger.rs`: a session adds, edits and removes triggers
between the entries its triggers see. A trigger is the first one under its id
(ids are `u32`s and wrap; additions go to the end), and what it answers to an
entry depends on it alone: its firings are those of the manager that has no
other trigger (`firings_eq`). Left alone it fires on a match and then skips its
post-window (`greedy`), and its own edits only shorten what is left of that.

Key definitions: `TriggerManager.add`, `TriggerManager.edit`, `TriggerAct`,
`TriggerManager.firings`, `greedy`.
Key theorems: `TriggerManager.firings_eq`, `triggers_do_not_interfere`.
-/
import Logmon.Engine.Trigger
import Logmon.Lib.First
import Mathlib.Data.List.Nodup

namespace Logmon

open Lib

/-- The parameters of an edit; what is absent stays. -/
structure TriggerEdit where
  filter : Option String
  preWindow : Option ℕ
  postWindow : Option ℕ
  notifyContext : Option ℕ
  description : Option String
  oneshot : Option Bool
  deriving DecidableEq

/-- The parameters of a new trigger. -/
structure TriggerSpec where
  filter : String
  preWindow : ℕ
  postWindow : ℕ
  notifyContext : ℕ
  description : Option String
  oneshot : Bool
  deriving DecidableEq

inductive TriggerError
  | notFound (id : ℕ)
  | invalidFilter (message : String)
  deriving DecidableEq

namespace Trigger

/-- A trigger under another filter is live at once. -/
def retarget (t : Trigger) : Option (String × ParsedFilter) → Trigger
  | none => t
  | some (filterString, condition) => { t with filterString, condition, postRemaining := 0 }

/-- A post-window already open is cut to the new size. -/
def rewindow (t : Trigger) : Option ℕ → Trigger
  | none => t
  | some w => { t with postWindow := w, postRemaining := if t.postRemaining > w then w else t.postRemaining }

/-- The trigger after an edit whose filter, if any, has been parsed. -/
def edited (t : Trigger) (e : TriggerEdit) (condition : Option (String × ParsedFilter)) : Trigger :=
  let t := t.retarget condition
  let t := { t with preWindow := e.preWindow.getD t.preWindow }
  let t := t.rewindow e.postWindow
  { t with
    notifyContext := e.notifyContext.getD t.notifyContext
    description := e.description.or t.description
    oneshot := e.oneshot.getD t.oneshot }

end Trigger

namespace TriggerManager

/-- The first trigger under an id. -/
def get? (m : TriggerManager) (id : ℕ) : Option Trigger := m.triggers.find? fun t => t.id = id

section Requests

variable (parseFilter : String → Except String ParsedFilter)

def add (m : TriggerManager) (s : TriggerSpec) : Except TriggerError (TriggerManager × ℕ) :=
  match parseFilter s.filter with
  | .error e => .error (.invalidFilter e)
  | .ok condition =>
    .ok ({ triggers := m.triggers ++ [{
            id := m.nextId, condition, filterString := s.filter, preWindow := s.preWindow, postWindow := s.postWindow,
            notifyContext := s.notifyContext, description := s.description, oneshot := s.oneshot, matchCount := 0,
            postRemaining := 0 }],
           nextId := (m.nextId + 1) % 2 ^ 32 }, m.nextId)

/-- The parsed filter of an edit. -/
def parsedFilter (e : TriggerEdit) : Except String (Option (String × ParsedFilter)) :=
  match e.filter with
  | none => .ok none
  | some f => match parseFilter f with
    | .error msg => .error msg
    | .ok condition => .ok (some (f, condition))

def edit (m : TriggerManager) (id : ℕ) (e : TriggerEdit) : Except TriggerError TriggerManager :=
  match parsedFilter parseFilter e with
  | .error msg => .error (.invalidFilter msg)
  | .ok condition => match m.get? id with
    | none => .error (.notFound id)
    | some _ =>
      .ok { m with triggers := modifyFirst (fun t => decide (t.id = id)) (fun t => t.edited e condition) m.triggers }

end Requests

end TriggerManager

/-- What happens in a session: an entry is evaluated, or a request changes its
triggers. -/
inductive TriggerAct
  | evaluate (entry : LogEntry)
  | add (spec : TriggerSpec)
  | edit (id : ℕ) (e : TriggerEdit)
  | remove (id : ℕ)
  deriving DecidableEq

namespace TriggerAct

/-- The entry of an evaluation. -/
def entry? : TriggerAct → Option LogEntry
  | .evaluate e => some e
  | _ => none

/-- The act is an entry, or a request about `k`. -/
def concerns (k : ℕ) : TriggerAct → Bool
  | .evaluate _ => true
  | .add _ => false
  | .edit id _ => id = k
  | .remove id => id = k

end TriggerAct

/-- Fire on a match, then skip the next `w` entries, matching or not; `n` are
still to be skipped. -/
def greedy (matching : LogEntry → Bool) (w : ℕ) : ℕ → List LogEntry → List Bool
  | _, [] => []
  | 0, e :: es => if matching e then true :: greedy matching w w es else false :: greedy matching w 0 es
  | n + 1, _ :: es => false :: greedy matching w n es

namespace TriggerManager

section Runs

variable (E : TextEnv) (parseFilter : String → Except String ParsedFilter)

/-- A failed request leaves the triggers as they are. -/
def step (m : TriggerManager) : TriggerAct → TriggerManager
  | .evaluate e => (m.evaluate E e).1
  | .add s => match m.add parseFilter s with
    | .error _ => m
    | .ok (m, _) => m
  | .edit id e => match m.edit parseFilter id e with
    | .error _ => m
    | .ok m => m
  | .remove id => m.remove id

/-- Whether the trigger `k` fires on an entry. -/
def fires (m : TriggerManager) (k : ℕ) (entry : LogEntry) : Bool :=
  ((m.get? k).bind fun t => (t.see E entry).2).isSome

/-- On which of the run's entries the trigger `k` fires. -/
def firings (k : ℕ) : TriggerManager → List TriggerAct → List Bool
  | _, [] => []
  | m, .evaluate e :: as => m.fires E k e :: firings k (m.step E parseFilter (.evaluate e)) as
  | m, a :: as => firings k (m.step E parseFilter a) as

end Runs

variable {E : TextEnv} {parseFilter : String → Except String ParsedFilter} {m : TriggerManager} {k : ℕ} {t : Trigger}

/-- A trigger that fires is among those the evaluation returns. -/
theorem mem_evaluate_of_fires {entry : LogEntry} (h : m.fires E k entry = true) :
    ∃ x ∈ (m.evaluate E entry).2, x.id = k := by
  obtain ⟨x, hx⟩ := Option.isSome_iff_exists.mp h
  obtain ⟨t, ht, hsee⟩ := Option.bind_eq_some_iff.mp hx
  refine ⟨x, List.mem_filterMap.mpr ⟨t, List.mem_of_find?_eq_some ht, hsee⟩, ?_⟩
  have hid : t.id = k := by simpa using List.find?_some ht
  unfold Trigger.see at hsee
  split_ifs at hsee
  rw [← Option.some.inj hsee]
  exact hid

/-- And where ids are distinct these are the triggers that fire. -/
theorem fires_of_mem_evaluate (hids : (m.triggers.map Trigger.id).Nodup) {entry : LogEntry} {x : TriggerMatch}
    (hx : x ∈ (m.evaluate E entry).2) : m.fires E x.id entry = true := by
  obtain ⟨t, ht, hsee⟩ := List.mem_filterMap.mp hx
  have hid : x.id = t.id := by
    unfold Trigger.see at hsee
    split_ifs at hsee
    rw [← Option.some.inj hsee]
    rfl
  have hget : m.get? x.id = some t := by
    cases hf : m.get? x.id with
    | none =>
      have := List.find?_eq_none.mp hf t ht
      simp [hid] at this
    | some u =>
      have hu : u.id = x.id := by simpa using List.find?_some hf
      rw [List.inj_on_of_nodup_map hids (List.mem_of_find?_eq_some hf) ht (hu.trans hid)]
  unfold fires
  rw [hget, Option.bind_some, hsee]
  rfl

theorem see_id (E : TextEnv) (entry : LogEntry) (t : Trigger) : (t.see E entry).1.id = t.id := by
  unfold Trigger.see
  split_ifs <;> rfl

theorem edited_id (t : Trigger) (e : TriggerEdit) (c : Option (String × ParsedFilter)) : (t.edited e c).id = t.id := by
  unfold Trigger.edited Trigger.rewindow Trigger.retarget
  cases c <;> cases e.postWindow <;> rfl

/-! ### What a step does to one trigger -/

theorem get?_evaluate (entry : LogEntry) :
    (m.evaluate E entry).1.get? k = (m.get? k).map fun t => (t.see E entry).1 := by
  unfold get? evaluate
  rw [List.find?_map]
  congr 2
  funext t
  simp [see_id]

theorem get?_add {s : TriggerSpec} {id : ℕ} {m' : TriggerManager} (h : m.add parseFilter s = .ok (m', id))
    (ht : m.get? k = some t) : m'.get? k = some t := by
  unfold add at h
  split at h
  · simp at h
  · obtain ⟨rfl, -⟩ := Prod.mk.inj (Except.ok.inj h)
    unfold get? at ht ⊢
    rw [List.find?_append, ht]
    rfl

/-- What an accepted edit did. -/
theorem edit_ok {id : ℕ} {e : TriggerEdit} {m' : TriggerManager} (h : m.edit parseFilter id e = .ok m') :
    ∃ condition, parsedFilter parseFilter e = .ok condition ∧
      m' = { m with triggers := modifyFirst (fun t => decide (t.id = id)) (fun t => t.edited e condition) m.triggers } := by
  unfold edit at h
  split at h
  · simp at h
  · rename_i condition hc
    split at h
    · simp at h
    · exact ⟨condition, hc, (Except.ok.inj h).symm⟩

theorem get?_edit_ne {id : ℕ} {e : TriggerEdit} {m' : TriggerManager} (h : m.edit parseFilter id e = .ok m')
    (hne : id ≠ k) : m'.get? k = m.get? k := by
  obtain ⟨condition, -, rfl⟩ := edit_ok h
  refine find?_modifyFirst_of_ne fun t _ ht => ?_
  have hid : t.id = id := by simpa using ht
  simp [edited_id, hid, hne]

theorem get?_edit_self {e : TriggerEdit} {m' : TriggerManager} {condition : Option (String × ParsedFilter)}
    (h : m.edit parseFilter k e = .ok m') (hc : parsedFilter parseFilter e = .ok condition) :
    m'.get? k = (m.get? k).map fun t => t.edited e condition := by
  obtain ⟨c, hc', rfl⟩ := edit_ok h
  obtain rfl : c = condition := Except.ok.inj (hc'.symm.trans hc)
  exact find?_modifyFirst (fun t ht => by simpa [edited_id] using ht) _

theorem get?_remove_ne {id : ℕ} (hne : id ≠ k) : (m.remove id).get? k = m.get? k := by
  refine find?_eraseP_of_ne fun t _ ht => ?_
  have hid : t.id = id := by simpa using ht
  simp [hid, hne]

/-- **A request about another trigger does nothing to this one.** -/
theorem get?_step_other {a : TriggerAct} (ha : a.concerns k = false) (ht : m.get? k = some t) :
    (m.step E parseFilter a).get? k = some t := by
  cases a with
  | evaluate e => simp [TriggerAct.concerns] at ha
  | add s =>
    simp only [step]
    cases h : m.add parseFilter s with
    | error e => exact ht
    | ok r => exact get?_add h ht
  | edit id e =>
    have hne : id ≠ k := by simpa [TriggerAct.concerns] using ha
    simp only [step]
    cases h : m.edit parseFilter id e with
    | error e => exact ht
    | ok m' => exact (get?_edit_ne h hne).trans ht
  | remove id =>
    have hne : id ≠ k := by simpa [TriggerAct.concerns] using ha
    exact (get?_remove_ne hne).trans ht

/-- **What concerns it acts on it alone.** -/
theorem get?_step_own {m' : TriggerManager} {a : TriggerAct} (hremove : a ≠ .remove k) (hconcerns : a.concerns k = true)
    (h : m.get? k = some t) (h' : m'.get? k = some t) :
    ∃ u, (m.step E parseFilter a).get? k = some u ∧ (m'.step E parseFilter a).get? k = some u := by
  cases a with
  | evaluate e => exact ⟨(t.see E e).1, by rw [step, get?_evaluate, h]; rfl, by rw [step, get?_evaluate, h']; rfl⟩
  | add s => simp [TriggerAct.concerns] at hconcerns
  | remove id =>
    obtain rfl : id = k := by simpa [TriggerAct.concerns] using hconcerns
    exact absurd rfl hremove
  | edit id e =>
    obtain rfl : id = k := by simpa [TriggerAct.concerns] using hconcerns
    simp only [step]
    cases hc : parsedFilter parseFilter e with
    | error msg =>
      have hfail : ∀ n : TriggerManager, n.edit parseFilter id e = .error (.invalidFilter msg) := by
        intro n
        unfold edit
        rw [hc]
      rw [hfail, hfail]
      exact ⟨t, h, h'⟩
    | ok condition =>
      have hdone : ∀ {n : TriggerManager}, n.get? id = some t → ∃ n', n.edit parseFilter id e = .ok n' := by
        intro n hn
        unfold edit
        rw [hc, hn]
        exact ⟨_, rfl⟩
      obtain ⟨n, hn⟩ := hdone h
      obtain ⟨n', hn'⟩ := hdone h'
      rw [hn, hn']
      exact ⟨t.edited e condition, by rw [get?_edit_self hn hc, h]; rfl, by rw [get?_edit_self hn' hc, h']; rfl⟩

/-! ### Runs -/

/-- What concerns it does the same in any two managers that have it. -/
theorem firings_agree : ∀ (as : List TriggerAct) {m m' : TriggerManager} {t : Trigger}, m.get? k = some t →
    m'.get? k = some t → (∀ a ∈ as, a ≠ .remove k ∧ a.concerns k = true) →
    firings E parseFilter k m as = firings E parseFilter k m' as
  | [], _, _, _, _, _, _ => rfl
  | a :: as, m, m', t, ht, ht', hown => by
    obtain ⟨hremove, hconcerns⟩ := hown a List.mem_cons_self
    obtain ⟨u, hu, hu'⟩ := @get?_step_own E parseFilter _ k _ _ _ hremove hconcerns ht ht'
    have ih := firings_agree as hu hu' fun b hb => hown b (List.mem_cons_of_mem _ hb)
    cases a with
    | evaluate e =>
      simp only [firings, ih]
      rw [show m.fires E k e = m'.fires E k e by unfold fires; rw [ht, ht']]
    | add s => simp [TriggerAct.concerns] at hconcerns
    | edit id e => simp only [firings, ih]
    | remove id => simp only [firings, ih]

/-- Requests about other triggers can be left out. -/
theorem firings_filter : ∀ (as : List TriggerAct) {m : TriggerManager} {t : Trigger}, m.get? k = some t →
    (∀ a ∈ as, a ≠ .remove k) →
    firings E parseFilter k m as = firings E parseFilter k m (as.filter fun a => a.concerns k)
  | [], _, _, _, _ => rfl
  | a :: as, m, t, ht, hkeep => by
    have hrest : ∀ b ∈ as, b ≠ .remove k := fun b hb => hkeep b (List.mem_cons_of_mem _ hb)
    by_cases ha : a.concerns k = true
    · rw [List.filter_cons_of_pos ha]
      obtain ⟨u, hu, -⟩ := @get?_step_own E parseFilter _ k _ _ _ (hkeep a List.mem_cons_self) ha ht ht
      cases a with
      | evaluate e => simp only [firings, firings_filter as hu hrest]
      | add s => simp [TriggerAct.concerns] at ha
      | edit id e => simp only [firings, firings_filter as hu hrest]
      | remove id => simp only [firings, firings_filter as hu hrest]
    · rw [List.filter_cons_of_neg ha]
      have hother : (m.step E parseFilter a).get? k = some t := get?_step_other (by simpa using ha) ht
      have hskip : firings E parseFilter k m (a :: as) = firings E parseFilter k (m.step E parseFilter a) as := by
        cases a with
        | evaluate e => simp [TriggerAct.concerns] at ha
        | _ => rfl
      rw [hskip, firings_filter as hother hrest]
      exact firings_agree _ hother ht fun b hb => ⟨hrest b (List.mem_filter.mp hb).1, (List.mem_filter.mp hb).2⟩

/-- **A trigger's firings are its own**: two runs that agree on the entries and
on the requests about it agree on them, whatever else is in either. -/
theorem firings_eq {m' : TriggerManager} {as as' : List TriggerAct} (ht : m.get? k = some t) (ht' : m'.get? k = some t)
    (hkeep : ∀ a ∈ as, a ≠ .remove k) (hkeep' : ∀ a ∈ as', a ≠ .remove k)
    (hown : (as.filter fun a => a.concerns k) = as'.filter fun a => a.concerns k) :
    firings E parseFilter k m as = firings E parseFilter k m' as' := by
  calc firings E parseFilter k m as = firings E parseFilter k m (as.filter fun a => a.concerns k) :=
        firings_filter as ht hkeep
    _ = firings E parseFilter k m' (as.filter fun a => a.concerns k) :=
        firings_agree _ ht ht' fun a ha => ⟨hkeep a (List.mem_filter.mp ha).1, (List.mem_filter.mp ha).2⟩
    _ = firings E parseFilter k m' as' := by rw [hown, ← firings_filter as' ht' hkeep']

/-- Over entries alone a trigger follows the greedy rule from where it stands. -/
theorem firings_evaluate : ∀ (es : List LogEntry) {m : TriggerManager} {t : Trigger}, m.get? k = some t →
    firings E parseFilter k m (es.map .evaluate) =
      greedy (fun e => matchesEntry E t.condition e) t.postWindow t.postRemaining es
  | [], _, _, _ => by simp [firings, greedy]
  | e :: es, m, t, ht => by
    have hnext : (m.step E parseFilter (.evaluate e)).get? k = some (t.see E e).1 := by
      rw [step, get?_evaluate, ht]
      rfl
    have hfires : m.fires E k e = (t.see E e).2.isSome := by
      unfold fires
      rw [ht]
      rfl
    rw [List.map_cons, firings, firings_evaluate es hnext, hfires]
    unfold Trigger.see
    cases hr : t.postRemaining with
    | succ n => simp [greedy]
    | zero =>
      by_cases hmatch : matchesEntry E t.condition e = true
      · simp [greedy, hmatch]
      · simp [greedy, hmatch, hr]

/-- Without a request about the trigger its run is the entries'. -/
theorem filter_concerns {as : List TriggerAct} (h : ∀ a ∈ as, a.entry? = none → a.concerns k = false) :
    (as.filter fun a => a.concerns k) = (as.filterMap TriggerAct.entry?).map .evaluate := by
  induction as with
  | nil => rfl
  | cons a as ih =>
    have hrest := ih fun b hb => h b (List.mem_cons_of_mem _ hb)
    cases a with
    | evaluate e =>
      rw [List.filter_cons_of_pos (by rfl), hrest]
      rfl
    | add s =>
      rw [List.filter_cons_of_neg (by simp [TriggerAct.concerns]), hrest]
      rfl
    | edit id e =>
      have hne := h _ List.mem_cons_self rfl
      rw [List.filter_cons_of_neg (by simp [hne]), hrest]
      rfl
    | remove id =>
      have hne := h _ List.mem_cons_self rfl
      rw [List.filter_cons_of_neg (by simp [hne]), hrest]
      rfl

theorem firings_greedy {as : List TriggerAct} (ht : m.get? k = some t)
    (h : ∀ a ∈ as, a.entry? = none → a.concerns k = false) :
    firings E parseFilter k m as =
      greedy (fun e => matchesEntry E t.condition e) t.postWindow t.postRemaining (as.filterMap TriggerAct.entry?) := by
  have hkeep : ∀ a ∈ as, a ≠ .remove k := by
    rintro a ha rfl
    have := h _ ha rfl
    simp [TriggerAct.concerns] at this
  rw [firings_filter as ht hkeep, filter_concerns h, firings_evaluate _ ht]

/-- An edit of the post-window leaves at most the new one. -/
theorem edited_window {e : TriggerEdit} {w : ℕ} (he : e.postWindow = some w) (t : Trigger)
    (c : Option (String × ParsedFilter)) : (t.edited e c).postWindow = w ∧ (t.edited e c).postRemaining ≤ w := by
  unfold Trigger.edited Trigger.rewindow
  rw [he]
  refine ⟨rfl, ?_⟩
  show (if (t.retarget c).postRemaining > w then w else (t.retarget c).postRemaining) ≤ w
  split_ifs <;> omega

/-- An edit of the filter leaves nothing. -/
theorem edited_filter (e : TriggerEdit) (t : Trigger) (f : String) (condition : ParsedFilter) :
    (t.edited e (some (f, condition))).condition = condition ∧ (t.edited e (some (f, condition))).postRemaining = 0 := by
  unfold Trigger.edited Trigger.rewindow Trigger.retarget
  cases e.postWindow with
  | none => exact ⟨rfl, rfl⟩
  | some w => exact ⟨rfl, by simp⟩

end TriggerManager

open TriggerManager in
/-- **Triggers do not interfere.** What a session's other triggers are, and what
is done to them, changes nothing in a trigger's firings; without edits of its
own they are the greedy ones, and after one they are the greedy ones again, with
at most the new post-window left to skip, and nothing after a new filter. -/
theorem triggers_do_not_interfere (E : TextEnv) (parseFilter : String → Except String ParsedFilter)
    {m : TriggerManager} {k : ℕ} {t : Trigger} (ht : m.get? k = some t) :
    (∀ (m' : TriggerManager) (as as' : List TriggerAct), m'.get? k = some t → (∀ a ∈ as, a ≠ .remove k) →
      (∀ a ∈ as', a ≠ .remove k) → ((as.filter fun a => a.concerns k) = as'.filter fun a => a.concerns k) →
      firings E parseFilter k m as = firings E parseFilter k m' as') ∧
    (∀ as, (∀ a ∈ as, a.entry? = none → a.concerns k = false) →
      firings E parseFilter k m as =
        greedy (fun e => matchesEntry E t.condition e) t.postWindow t.postRemaining
          (as.filterMap TriggerAct.entry?)) ∧
    ∀ e m', m.edit parseFilter k e = .ok m' → ∃ t', m'.get? k = some t' ∧
      (∀ w, e.postWindow = some w → t'.postWindow = w ∧ t'.postRemaining ≤ w) ∧
      (∀ f, e.filter = some f → parseFilter f = .ok t'.condition ∧ t'.postRemaining = 0) ∧
      ∀ as, (∀ a ∈ as, a.entry? = none → a.concerns k = false) →
        firings E parseFilter k m' as =
          greedy (fun x => matchesEntry E t'.condition x) t'.postWindow t'.postRemaining
            (as.filterMap TriggerAct.entry?) := by
  refine ⟨fun m' as as' ht' hkeep hkeep' hown => ?_, fun as h => ?_, fun e m' hedit => ?_⟩
  · exact firings_eq ht ht' hkeep hkeep' hown
  · exact firings_greedy ht h
  · obtain ⟨condition, hc, -⟩ := edit_ok hedit
    have ht' : m'.get? k = some (t.edited e condition) := by
      rw [get?_edit_self hedit hc, ht]
      rfl
    refine ⟨t.edited e condition, ht', fun w hw => edited_window hw t condition, fun f hf => ?_, fun as h => ?_⟩
    · unfold parsedFilter at hc
      rw [hf] at hc
      simp only at hc
      split at hc
      · simp at hc
      · rename_i parsed hparse
        obtain rfl := Except.ok.inj hc
        obtain ⟨h1, h2⟩ := edited_filter e t f parsed
        rw [h1]
        exact ⟨hparse, h2⟩
    · exact firings_greedy ht' h

/-- A trigger for every entry that skips the next two. -/
def everyThird : Trigger where
  id := 1
  condition := .all
  filterString := "ALL"
  preWindow := 0
  postWindow := 2
  notifyContext := 0
  description := none
  oneshot := false
  matchCount := 0
  postRemaining := 0

/-- Beside a busy trigger that is added and removed it fires on every third
entry. -/
theorem everyThird_fires :
    TriggerManager.firings .ascii (fun _ => .ok .all) 1 ⟨[everyThird], 2⟩
      [.evaluate (.blank 1), .add ⟨"ALL", 0, 0, 0, none, false⟩, .evaluate (.blank 2), .remove 2,
        .evaluate (.blank 3), .evaluate (.blank 4)] = [true, false, false, true] :=
  ((triggers_do_not_interfere .ascii (fun _ => .ok .all) (t := everyThird) rfl).2.1 _
    (by simp [TriggerAct.entry?, TriggerAct.concerns])).trans rfl

end Logmon
