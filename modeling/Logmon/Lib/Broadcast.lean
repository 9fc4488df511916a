/-
# A broadcast channel

One log of the values sent, which every subscriber reads at its own pace. The
channel retains the last of them only: a subscriber that fell further behind is
told how many it missed and goes on from the oldest that is left.

A subscriber reads a subsequence of what was sent since it subscribed, and all
of it while it was never overrun (`Subscription.Reads`). What it has yet to
read only shrinks by its reading and only grows by a sending.

Key definitions: `Subscription`, `Subscription.receive`, `Subscription.Reads`.
Key theorems: `Subscription.Reads.value`, `Subscription.Reads.lagged`,
`Subscription.reads_rebase`, `Subscription.count_value`.
-/
import Mathlib.Data.List.Count
import Mathlib.Data.List.TakeDrop
import Mathlib.Order.Nat

namespace Logmon
namespace Lib

/-- Where a subscriber began, where it reads next, and whether it has missed
anything in between. -/
structure Subscription where
  start : ℕ
  pos : ℕ
  overrun : Bool
  deriving DecidableEq

/-- What one read returns. -/
inductive Received (α : Type)
  | value (a : α)
  | lagged (missed : ℕ)
  | empty

namespace Subscription

variable {α : Type}

/-- A new subscriber is sent what comes after. -/
def subscribe (log : List α) : Subscription := ⟨log.length, log.length, false⟩

def receive (retained : ℕ) (log : List α) (r : Subscription) : Subscription × Received α :=
  if r.pos + retained < log.length then
    ({ r with pos := log.length - retained, overrun := true }, .lagged (log.length - retained - r.pos))
  else
    match log[r.pos]? with
    | none => (r, .empty)
    | some a => ({ r with pos := r.pos + 1 }, .value a)

/-- Count from here. -/
def rebase (r : Subscription) : Subscription := ⟨r.pos, r.pos, false⟩

/-- What was sent since it began, as far as it has come. -/
def window (log : List α) (r : Subscription) : List α := (log.take r.pos).drop r.start

/-- What it has yet to read. -/
def pending (log : List α) (r : Subscription) : List α := log.drop r.pos

/-- Of the values that `keep` wants, the subscriber has seen `seen`. -/
structure Reads (keep : α → Bool) (log : List α) (r : Subscription) (seen : List α) : Prop where
  begun : r.start ≤ r.pos
  sent : r.pos ≤ log.length
  part : seen.Sublist ((r.window log).filter keep)
  whole : r.overrun = false → seen = (r.window log).filter keep

variable {keep : α → Bool} {log : List α} {r r' : Subscription} {seen : List α} {a : α} {retained : ℕ}

theorem receive_value (h : r.receive retained log = (r', .value a)) :
    log[r.pos]? = some a ∧ r' = { r with pos := r.pos + 1 } := by
  unfold receive at h
  split at h
  · cases h
  · split at h
    · cases h
    · rename_i b hb
      obtain ⟨hr, ha⟩ := Prod.mk.inj h
      obtain rfl := Received.value.inj ha
      exact ⟨hb, hr.symm⟩

theorem receive_lagged {n : ℕ} (h : r.receive retained log = (r', .lagged n)) :
    r.pos + retained < log.length ∧ r' = { r with pos := log.length - retained, overrun := true } := by
  unfold receive at h
  split at h
  · rename_i hlt
    exact ⟨hlt, (Prod.mk.inj h).1.symm⟩
  · split at h <;> cases h

/-- Reading on by one adds the value read. -/
theorem window_succ (hle : r.start ≤ r.pos) (ha : log[r.pos]? = some a) :
    window log { r with pos := r.pos + 1 } = r.window log ++ [a] := by
  obtain ⟨hlt, ha'⟩ := List.getElem?_eq_some_iff.mp ha
  have htake : log.take (r.pos + 1) = log.take r.pos ++ [a] := by
    rw [List.take_add_one, ha, Option.toList_some]
  have hlen : (log.take r.pos).length = r.pos := List.length_take_of_le hlt.le
  unfold window
  rw [htake, List.drop_append_of_le_length (by rw [hlen]; exact hle)]

/-- Reading on adds at the end only. -/
theorem window_sublist {pos : ℕ} (hpos : r.pos ≤ pos) (overrun : Bool) :
    (r.window log).Sublist (window log { r with pos, overrun }) := by
  have htake : log.take r.pos = (log.take pos).take r.pos := by rw [List.take_take, Nat.min_eq_left hpos]
  unfold window
  rw [htake]
  exact (List.take_sublist _ _).drop _

@[simp] theorem window_append (hsent : r.pos ≤ log.length) (more : List α) :
    r.window (log ++ more) = r.window log := by
  unfold window
  rw [List.take_append_of_le_length hsent]

theorem pending_append (hsent : r.pos ≤ log.length) (more : List α) :
    r.pending (log ++ more) = r.pending log ++ more :=
  List.drop_append_of_le_length hsent

/-- Read and unread, it is all that was sent since it began. -/
theorem window_append_pending (hle : r.start ≤ r.pos) (hsent : r.pos ≤ log.length) :
    r.window log ++ r.pending log = log.drop r.start := by
  have hlen : (log.take r.pos).length = r.pos := List.length_take_of_le hsent
  unfold window pending
  rw [← List.drop_append_of_le_length (by rw [hlen]; exact hle), List.take_append_drop]

/-! ### What the operations do to what was read -/

theorem reads_subscribe (keep : α → Bool) (log : List α) : (subscribe log).Reads keep log [] := by
  have hwin : (subscribe log).window log = [] := by simp [window, subscribe]
  refine ⟨le_rfl, le_rfl, List.nil_sublist _, fun _ => ?_⟩
  rw [hwin]
  rfl

theorem reads_rebase (hsent : r.pos ≤ log.length) (keep : α → Bool) : r.rebase.Reads keep log [] := by
  have hwin : r.rebase.window log = [] := by simp [window, rebase]
  refine ⟨le_rfl, hsent, List.nil_sublist _, fun _ => ?_⟩
  rw [hwin]
  rfl

theorem Reads.send (h : r.Reads keep log seen) (more : List α) : r.Reads keep (log ++ more) seen := by
  refine ⟨h.begun, ?_, ?_, fun hr => ?_⟩
  · rw [List.length_append]
    exact Nat.le_add_right_of_le h.sent
  · rw [window_append h.sent]
    exact h.part
  · rw [window_append h.sent]
    exact h.whole hr

/-- A value that is wanted is seen. -/
theorem Reads.value (h : r.Reads keep log seen) (hr : r.receive retained log = (r', .value a)) :
    r'.Reads keep log (if keep a then seen ++ [a] else seen) := by
  obtain ⟨ha, rfl⟩ := receive_value hr
  obtain ⟨hlt, -⟩ := List.getElem?_eq_some_iff.mp ha
  have hwin : (window log { r with pos := r.pos + 1 }).filter keep =
      if keep a then (r.window log).filter keep ++ [a] else (r.window log).filter keep := by
    rw [window_succ h.begun ha, List.filter_append, List.filter_cons, List.filter_nil]
    cases keep a with
    | true => rfl
    | false => exact List.append_nil _
  refine ⟨Nat.le_succ_of_le h.begun, hlt, ?_, fun ho => ?_⟩
  · rw [hwin]
    split
    · exact h.part.append (List.Sublist.refl _)
    · exact h.part
  · rw [hwin, h.whole ho]

/-- One that was overrun has seen nothing else. -/
theorem Reads.lagged (h : r.Reads keep log seen) {n : ℕ} (hr : r.receive retained log = (r', .lagged n)) :
    r'.Reads keep log seen := by
  obtain ⟨hlt, rfl⟩ := receive_lagged hr
  have hpos : r.pos ≤ log.length - retained := by omega
  refine ⟨h.begun.trans hpos, Nat.sub_le _ _, ?_, fun ho => (by cases ho)⟩
  exact h.part.trans ((window_sublist hpos true).filter keep)

/-! ### What is still to be read -/

@[simp] theorem pending_subscribe (log : List α) : (subscribe log).pending log = [] := List.drop_length

variable [DecidableEq α]

theorem count_value (hr : r.receive retained log = (r', .value a)) (b : α) :
    (r.pending log).count b = (r'.pending log).count b + if a = b then 1 else 0 := by
  obtain ⟨ha, rfl⟩ := receive_value hr
  obtain ⟨hlt, rfl⟩ := List.getElem?_eq_some_iff.mp ha
  unfold pending
  rw [List.drop_eq_getElem_cons hlt, List.count_cons]
  simp only [beq_iff_eq]

theorem count_lagged {n : ℕ} (hr : r.receive retained log = (r', .lagged n)) (b : α) :
    (r'.pending log).count b ≤ (r.pending log).count b := by
  obtain ⟨hlt, rfl⟩ := receive_lagged hr
  have hpos : r.pos ≤ log.length - retained := by omega
  exact (List.drop_sublist_drop_left log hpos).count_le b

end Subscription

end Lib
end Logmon
