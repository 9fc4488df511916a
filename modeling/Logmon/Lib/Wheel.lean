/-
# A wheel of slots over a rolling window

Sums over the last `n` epochs, kept in `n` slots. An epoch has the slot of its
remainder; a slot is taken over from an older epoch when a newer one needs it,
and nothing is cleared before. A reading adds up the slots whose epoch lies in
the window.

What a reading returns is the sum over the entries in the window
(`windowSum_ofLog`): an entry that has fallen out of it may still stand in its
slot, under an epoch that is passed over, and epoch 0 is both a real epoch and
the one every slot starts with.

Key definitions: `Wheel`, `Wheel.add`, `Wheel.windowSum`, `Wheel.admitted`,
`Wheel.Holds`, `Wheel.ofLog`.
Key theorems: `Wheel.Holds.add`, `Wheel.Holds.windowSum_eq`, `Wheel.windowSum_ofLog`.
-/
import Mathlib.Algebra.BigOperators.Fin
import Mathlib.Algebra.BigOperators.Group.List.Basic
import Mathlib.Data.Fintype.BigOperators
import Mathlib.Data.List.Induction
import Mathlib.Tactic.Linarith

namespace Logmon
namespace Lib

/-- A slot, and the epoch it stands for. -/
structure WheelSlot (M : Type*) where
  epoch : ℕ
  sum : M

structure Wheel (n : ℕ) (M : Type*) where
  slots : Fin n → WheelSlot M
  /-- The newest epoch reached. -/
  head : ℕ

namespace Wheel

variable {n : ℕ} [NeZero n] {M : Type*}

/-- The slot of an epoch. -/
def slotOf (n : ℕ) [NeZero n] (epoch : ℕ) : Fin n := Fin.ofNat n epoch

section
variable [AddCommMonoid M]

/-- Every slot stands for epoch 0. -/
def empty : Wheel n M := ⟨fun _ => ⟨0, 0⟩, 0⟩

/-- An entry of an epoch: nothing if the window has passed it, and otherwise
added to its slot, which is taken over if it stands for another epoch. -/
def add (w : Wheel n M) (epoch : ℕ) (x : M) : Wheel n M :=
  if epoch + n ≤ max w.head epoch then { w with head := max w.head epoch }
  else
    { slots := Function.update w.slots (slotOf n epoch)
        ⟨epoch, (if (w.slots (slotOf n epoch)).epoch = epoch then (w.slots (slotOf n epoch)).sum else 0) + x⟩
      head := max w.head epoch }

/-- The slots of the window ending at `head`. -/
def windowSum (w : Wheel n M) : M :=
  ∑ i, if w.head - (n - 1) ≤ (w.slots i).epoch ∧ (w.slots i).epoch ≤ w.head then (w.slots i).sum else 0

end

/-! ### The entries behind it -/

/-- The newest epoch of a log. -/
def newest (log : List (ℕ × M)) : ℕ := log.foldl (fun head q => max head q.1) 0

/-- An entry, unless the window has passed it when it arrives. -/
def arrive (n head : ℕ) (kept : List (ℕ × M)) (q : ℕ × M) : List (ℕ × M) :=
  if q.1 + n ≤ max head q.1 then kept else kept ++ [q]

/-- The entries the window had not passed when they arrived, and the newest
epoch. -/
def arrivals (n : ℕ) (log : List (ℕ × M)) : List (ℕ × M) × ℕ :=
  log.foldl (fun s q => (arrive n s.2 s.1 q, max s.2 q.1)) ([], 0)

/-- The entries the window had not passed when they arrived. -/
def admitted (n : ℕ) (log : List (ℕ × M)) : List (ℕ × M) := (arrivals n log).1

/-- The entries of `log` of the last `n` epochs up to `head`. -/
def within (n head : ℕ) (log : List (ℕ × M)) : List (ℕ × M) :=
  log.filter fun q => head < q.1 + n ∧ q.1 ≤ head

theorem newest_concat (log : List (ℕ × M)) (q : ℕ × M) : newest (log ++ [q]) = max (newest log) q.1 := by
  unfold newest
  rw [List.foldl_concat]

theorem arrivals_snd (n : ℕ) (log : List (ℕ × M)) : (arrivals n log).2 = newest log := by
  induction log using List.reverseRecOn with
  | nil => rfl
  | append_singleton log q ih =>
    rw [newest_concat, ← ih]
    unfold arrivals
    rw [List.foldl_concat]

theorem admitted_concat (n : ℕ) (log : List (ℕ × M)) (q : ℕ × M) :
    admitted n (log ++ [q]) = arrive n (newest log) (admitted n log) q := by
  unfold admitted
  rw [← arrivals_snd n log]
  unfold arrivals
  rw [List.foldl_concat]

/-! What an entry carries is not looked at. -/

section
variable {A : Type*} (f : A → M) (log : List (ℕ × A))

theorem newest_map : newest (log.map (Prod.map id f)) = newest log := by
  unfold newest
  rw [List.foldl_map]
  rfl

theorem admitted_map (n : ℕ) : admitted n (log.map (Prod.map id f)) = (admitted n log).map (Prod.map id f) := by
  induction log using List.reverseRecOn with
  | nil => rfl
  | append_singleton log q ih =>
    rw [List.map_append, List.map_singleton, admitted_concat, admitted_concat, newest_map, ih]
    unfold arrive
    split
    · rw [if_pos (by assumption)]
    · rw [if_neg (by assumption), List.map_append]
      rfl

theorem within_map (n head : ℕ) : within n head (log.map (Prod.map id f)) = (within n head log).map (Prod.map id f) :=
  List.filter_map

end

variable [AddCommMonoid M]

/-- The sum over the entries of one epoch. -/
def epochSum (kept : List (ℕ × M)) (epoch : ℕ) : M := (kept.map fun q => if q.1 = epoch then q.2 else 0).sum

theorem epochSum_concat (kept : List (ℕ × M)) (q : ℕ × M) (epoch : ℕ) :
    epochSum (kept ++ [q]) epoch = epochSum kept epoch + if q.1 = epoch then q.2 else 0 := by
  unfold epochSum
  rw [List.map_append, List.sum_append, List.map_singleton, List.sum_singleton]

theorem epochSum_eq_zero {kept : List (ℕ × M)} {epoch : ℕ} (h : ∀ q ∈ kept, q.1 ≠ epoch) : epochSum kept epoch = 0 := by
  refine List.sum_eq_zero fun m hm => ?_
  obtain ⟨q, hq, rfl⟩ := List.mem_map.mp hm
  exact if_neg (h q hq)

/-! ### What the slots hold -/

/-- What the wheel holds of a log: each slot the sum of its own epoch, and no
entry of its remainder is newer. A slot no entry came to stands for epoch 0. -/
structure Holds (w : Wheel n M) (kept : List (ℕ × M)) : Prop where
  le_head : ∀ q ∈ kept, q.1 ≤ w.head
  epoch_le : ∀ i, (w.slots i).epoch ≤ w.head
  sum : ∀ i, slotOf n (w.slots i).epoch = i → (w.slots i).sum = epochSum kept (w.slots i).epoch
  unused : ∀ i, slotOf n (w.slots i).epoch ≠ i → w.slots i = ⟨0, 0⟩
  newest : ∀ q ∈ kept, slotOf n (w.slots (slotOf n q.1)).epoch = slotOf n q.1 ∧ q.1 ≤ (w.slots (slotOf n q.1)).epoch

/-- Of two epochs of one slot, the one less than `n` past the other is not past
it. -/
theorem le_of_slotOf_eq {a b : ℕ} (h : slotOf n a = slotOf n b) (hlt : a < b + n) : a ≤ b := by
  have hmod : a % n = b % n := congrArg Fin.val h
  by_contra hba
  have hdvd : n ∣ a - b := Nat.dvd_of_mod_eq_zero (Nat.sub_mod_eq_zero_of_mod_eq hmod)
  have := Nat.le_of_dvd (by omega) hdvd
  omega

theorem Holds.empty : Holds (empty : Wheel n M) [] where
  le_head := nofun
  epoch_le _ := Nat.le_refl 0
  sum _ _ := rfl
  unused _ _ := rfl
  newest := nofun

/-- An epoch the window still covers is its slot's, or no entry has it. -/
theorem Holds.epoch_eq {w : Wheel n M} {kept : List (ℕ × M)} (h : w.Holds kept) {q : ℕ × M} (hq : q ∈ kept)
    (hlt : w.head < q.1 + n) : (w.slots (slotOf n q.1)).epoch = q.1 := by
  obtain ⟨hslot, hle⟩ := h.newest q hq
  exact (le_of_slotOf_eq hslot (Nat.lt_of_le_of_lt (h.epoch_le _) hlt)).antisymm hle

/-- **One entry.** -/
theorem Holds.add {w : Wheel n M} {kept : List (ℕ × M)} (h : w.Holds kept) (epoch : ℕ) (x : M) :
    (w.add epoch x).Holds (arrive n w.head kept (epoch, x)) := by
  unfold Wheel.add arrive
  dsimp only
  split
  · rename_i hpassed
    exact ⟨fun q hq => (h.le_head q hq).trans (le_max_left _ _), fun i => (h.epoch_le i).trans (le_max_left _ _), h.sum,
      h.unused, h.newest⟩
  · rename_i hcovered
    have hhead : w.head < epoch + n := lt_of_le_of_lt (le_max_left _ _) (Nat.lt_of_not_le hcovered)
    refine ⟨fun q hq => ?_, fun i => ?_, fun i hi => ?_, fun i hi => ?_, fun q hq => ?_⟩
    · rcases List.mem_append.mp hq with hq | hq
      · exact (h.le_head q hq).trans (le_max_left _ _)
      · rw [List.mem_singleton.mp hq]
        exact le_max_right _ _
    · dsimp only
      by_cases hi : i = slotOf n epoch
      · rw [hi, Function.update_self]
        exact le_max_right _ _
      · rw [Function.update_of_ne hi]
        exact (h.epoch_le i).trans (le_max_left _ _)
    · dsimp only at hi ⊢
      by_cases he : i = slotOf n epoch
      · rw [he, Function.update_self, epochSum_concat, if_pos rfl]
        split
        · rename_i hsame
          rw [h.sum _ (by rw [hsame]), hsame]
        · rename_i hother
          -- an entry of this epoch would have its slot
          have hnone : ∀ q ∈ kept, q.1 ≠ epoch := fun q hq hqe => by
            rw [← hqe] at hother hhead
            exact hother (h.epoch_eq hq hhead)
          rw [epochSum_eq_zero hnone]
      · rw [Function.update_of_ne he] at hi ⊢
        have hne : epoch ≠ (w.slots i).epoch := fun heq => he (by rw [heq, hi])
        rw [epochSum_concat, if_neg hne, add_zero, h.sum i hi]
    · dsimp only at hi ⊢
      by_cases he : i = slotOf n epoch
      · rw [he, Function.update_self] at hi
        exact absurd rfl hi
      · rw [Function.update_of_ne he] at hi ⊢
        exact h.unused i hi
    · dsimp only
      rcases List.mem_append.mp hq with hq | hq
      · by_cases he : slotOf n q.1 = slotOf n epoch
        · obtain ⟨hslot, hle⟩ := h.newest q hq
          rw [he] at hslot hle
          rw [he, Function.update_self]
          exact ⟨rfl, hle.trans (le_of_slotOf_eq hslot (lt_of_le_of_lt (h.epoch_le _) hhead))⟩
        · rw [Function.update_of_ne he]
          exact h.newest q hq
      · rw [List.mem_singleton.mp hq, Function.update_self]
        exact ⟨rfl, le_rfl⟩

omit [NeZero n] in
theorem sum_map_filter {A : Type*} (p : A → Bool) (f : A → M) (l : List A) :
    ((l.filter p).map f).sum = (l.map fun a => if p a then f a else 0).sum := by
  induction l with
  | nil => rfl
  | cons a l ih =>
    rw [List.filter_cons, List.map_cons, List.sum_cons, ← ih]
    split
    · rw [List.map_cons, List.sum_cons]
    · rw [zero_add]

/-- **A reading is the sum over the window.** -/
theorem Holds.windowSum_eq {w : Wheel n M} {kept : List (ℕ × M)} (h : w.Holds kept) :
    w.windowSum = ((within n w.head kept).map Prod.snd).sum := by
  have hn : 0 < n := Nat.pos_of_ne_zero (NeZero.ne n)
  have hwindow : ∀ e, w.head - (n - 1) ≤ e ∧ e ≤ w.head ↔ w.head < e + n ∧ e ≤ w.head := fun e => by omega
  -- each slot reads the entries of its remainder that are in the window
  have hslot : ∀ i, (if w.head - (n - 1) ≤ (w.slots i).epoch ∧ (w.slots i).epoch ≤ w.head then (w.slots i).sum else 0) =
      ((within n w.head kept).map fun q => if slotOf n q.1 = i then q.2 else 0).sum := by
    intro i
    rw [within, sum_map_filter]
    simp only [decide_eq_true_eq, ← ite_and]
    have hzero : (∀ q ∈ kept, ¬ ((w.head < q.1 + n ∧ q.1 ≤ w.head) ∧ slotOf n q.1 = i)) →
        (kept.map fun q => if (w.head < q.1 + n ∧ q.1 ≤ w.head) ∧ slotOf n q.1 = i then q.2 else 0).sum = 0 := by
      intro hnone
      refine List.sum_eq_zero fun m hm => ?_
      obtain ⟨q, hq, rfl⟩ := List.mem_map.mp hm
      exact if_neg (hnone q hq)
    by_cases hi : slotOf n (w.slots i).epoch = i
    · have hq : ∀ q ∈ kept, (w.head < q.1 + n ∧ q.1 ≤ w.head) ∧ slotOf n q.1 = i ↔
          (w.head < (w.slots i).epoch + n ∧ (w.slots i).epoch ≤ w.head) ∧ q.1 = (w.slots i).epoch := by
        intro q hq
        constructor
        · rintro ⟨hin, rfl⟩
          rw [h.epoch_eq hq hin.1]
          exact ⟨hin, rfl⟩
        · rintro ⟨hin, he⟩
          rw [he]
          exact ⟨hin, hi⟩
      by_cases hin : w.head < (w.slots i).epoch + n ∧ (w.slots i).epoch ≤ w.head
      · rw [if_pos ((hwindow _).mpr hin), h.sum i hi]
        unfold epochSum
        congr 1
        exact List.map_congr_left fun q hmem => (if_congr ((hq q hmem).trans (and_iff_right hin)) rfl rfl).symm
      · rw [if_neg fun h => hin ((hwindow _).mp h), hzero fun q hmem h => hin ((hq q hmem).mp h).1]
    · rw [h.unused i hi, ite_self, hzero]
      rintro q hmem ⟨-, rfl⟩
      exact hi (h.newest q hmem).1
  unfold windowSum
  rw [Finset.sum_congr rfl fun i _ => hslot i]
  generalize within n w.head kept = l
  induction l with
  | nil => simp
  | cons q l ih => simp [Finset.sum_add_distrib, ih]

/-- Entries in their order, from an empty wheel. -/
def ofLog (n : ℕ) [NeZero n] (log : List (ℕ × M)) : Wheel n M := log.foldl (fun w q => w.add q.1 q.2) empty

theorem ofLog_concat (log : List (ℕ × M)) (q : ℕ × M) : ofLog n (log ++ [q]) = (ofLog n log).add q.1 q.2 := by
  unfold ofLog
  rw [List.foldl_concat]

@[simp] theorem head_add (w : Wheel n M) (epoch : ℕ) (x : M) : (w.add epoch x).head = max w.head epoch := by
  unfold add
  split <;> rfl

theorem head_ofLog (log : List (ℕ × M)) : (ofLog n log).head = newest log := by
  induction log using List.reverseRecOn with
  | nil => rfl
  | append_singleton log q ih => rw [ofLog_concat, head_add, newest_concat, ih]

theorem holds_ofLog (log : List (ℕ × M)) : (ofLog n log).Holds (admitted n log) := by
  induction log using List.reverseRecOn with
  | nil => exact Holds.empty
  | append_singleton log q ih =>
    rw [ofLog_concat, admitted_concat, ← @head_ofLog n _ _ _ log]
    exact ih.add q.1 q.2

/-- **What a wheel reads after any log** is the sum over the entries the window
had not passed when they came, and has not passed since. -/
theorem windowSum_ofLog (log : List (ℕ × M)) :
    (ofLog n log).windowSum = ((within n (newest log) (admitted n log)).map Prod.snd).sum := by
  rw [(holds_ofLog log).windowSum_eq, head_ofLog]

end Wheel
end Lib
end Logmon
