/-
# One slot of a list

Parties that act one at a time are a list, and an action writes one slot of
it. What some party satisfies is what the slot satisfies, or another party
does (`Elsewhere`), and the others are the same after the write.

Key definitions: `Elsewhere`.
Key theorems: `somewhere_iff`, `somewhere_set`, `forall_set`,
`forall_slots_set`, `countP_set_add`, `sum_set_add`.
-/
import Mathlib.Tactic.Linarith

namespace Logmon
namespace Lib

variable {α : Type} {l : List α} {i : ℕ} {c c' : α} {Q Q' : α → Prop}

/-- A slot other than `i` satisfies `Q`. -/
def Elsewhere (l : List α) (i : ℕ) (Q : α → Prop) : Prop := ∃ j d, j ≠ i ∧ l[j]? = some d ∧ Q d

theorem Elsewhere.mono (h : Elsewhere l i Q) (hQ : ∀ d ∈ l, Q d → Q' d) : Elsewhere l i Q' := by
  obtain ⟨j, d, hj, hd, hq⟩ := h
  exact ⟨j, d, hj, hd, hQ d (List.mem_of_getElem? hd) hq⟩

theorem somewhere_iff (hi : l[i]? = some c) : (∃ d ∈ l, Q d) ↔ Q c ∨ Elsewhere l i Q := by
  refine ⟨fun h => ?_, fun h => ?_⟩
  · obtain ⟨d, hd, hq⟩ := h
    obtain ⟨j, hj⟩ := List.mem_iff_getElem?.mp hd
    by_cases hji : j = i
    · rw [hji, hi] at hj
      exact .inl (Option.some.inj hj ▸ hq)
    · exact .inr ⟨j, d, hji, hj, hq⟩
  · rcases h with hq | ⟨j, d, _, hd, hq⟩
    · exact ⟨c, List.mem_of_getElem? hi, hq⟩
    · exact ⟨d, List.mem_of_getElem? hd, hq⟩

theorem getElem?_set_self' (hi : l[i]? = some c) : (l.set i c')[i]? = some c' := by
  obtain ⟨hlt, _⟩ := List.getElem?_eq_some_iff.mp hi
  simp [hlt]

theorem elsewhere_set : Elsewhere (l.set i c') i Q ↔ Elsewhere l i Q := by
  unfold Elsewhere
  refine ⟨fun h => ?_, fun h => ?_⟩
  · obtain ⟨j, d, hj, hd, hq⟩ := h
    exact ⟨j, d, hj, by rwa [List.getElem?_set_ne (Ne.symm hj)] at hd, hq⟩
  · obtain ⟨j, d, hj, hd, hq⟩ := h
    exact ⟨j, d, hj, by rwa [List.getElem?_set_ne (Ne.symm hj)], hq⟩

theorem somewhere_set (hi : l[i]? = some c) : (∃ d ∈ l.set i c', Q d) ↔ Q c' ∨ Elsewhere l i Q := by
  rw [somewhere_iff (getElem?_set_self' hi), elsewhere_set]

/-- The write changes nothing that the slot's old and new content agree on. -/
theorem somewhere_set_congr (hi : l[i]? = some c) (h : Q c' ↔ Q c) : (∃ d ∈ l.set i c', Q d) ↔ ∃ d ∈ l, Q d := by
  rw [somewhere_set hi, somewhere_iff hi, h]

theorem forall_set (h : ∀ d ∈ l, Q d) (hc : Q c') : ∀ d ∈ l.set i c', Q d := by
  intro d hd
  rcases List.mem_or_eq_of_mem_set hd with hd | rfl
  · exact h d hd
  · exact hc

/-- What holds slot by slot: of the new content, and of the others. -/
theorem forall_slots_set {P : ℕ → α → Prop} (hnew : P i c') (hold : ∀ j d, l[j]? = some d → j ≠ i → P j d) :
    ∀ j d, (l.set i c')[j]? = some d → P j d := by
  intro j d hj
  rw [List.getElem?_set] at hj
  by_cases hij : i = j
  · subst hij
    simp only [if_true] at hj
    split at hj
    · obtain rfl := Option.some.inj hj
      exact hnew
    · cases hj
  · rw [if_neg hij] at hj
    exact hold j d hj fun he => hij he.symm

/-- What the write takes from a count, and what it brings. -/
theorem countP_set_add {p : α → Bool} {x y : α} (hi : l[i]? = some x) :
    (l.set i y).countP p + (p x).toNat = l.countP p + (p y).toNat := by
  obtain ⟨hlt, rfl⟩ := List.getElem?_eq_some_iff.mp hi
  have hpos : p l[i] = true → 0 < l.countP p := fun h => List.countP_pos_iff.mpr ⟨l[i], List.getElem_mem hlt, h⟩
  rw [List.countP_set hlt]
  cases hx : p l[i] with
  | false => cases p y <;> simp
  | true =>
    have := hpos hx
    cases p y <;> simp only [if_true, Bool.false_eq_true, if_false, Bool.toNat_true, Bool.toNat_false] <;> omega

/-- And from a sum. -/
theorem sum_set_add (g : α → ℕ) : ∀ {l : List α} {i : ℕ}, l[i]? = some c →
    ((l.set i c').map g).sum + g c = (l.map g).sum + g c'
  | [], _, hi => by simp at hi
  | x :: l, 0, hi => by
    obtain rfl : x = c := by simpa using hi
    rw [List.set_cons_zero, List.map_cons, List.map_cons, List.sum_cons, List.sum_cons]
    omega
  | x :: l, i + 1, hi => by
    have ih := sum_set_add g (l := l) (i := i) (by simpa using hi)
    rw [List.set_cons_succ, List.map_cons, List.map_cons, List.sum_cons, List.sum_cons]
    omega

/-- Two slots that satisfy `p` are counted twice. -/
theorem two_le_countP {p : α → Bool} : ∀ {l : List α} {i j : ℕ} {a b : α}, i ≠ j → l[i]? = some a → l[j]? = some b →
    p a = true → p b = true → 2 ≤ l.countP p
  | [], i, j, a, b, _, ha, _, _, _ => by simp at ha
  | x :: l, 0, 0, a, b, hij, _, _, _, _ => absurd rfl hij
  | x :: l, 0, j + 1, a, b, _, ha, hb, hpa, hpb => by
    obtain rfl : x = a := by simpa using ha
    have : 0 < l.countP p := List.countP_pos_iff.mpr ⟨b, List.mem_of_getElem? (by simpa using hb), hpb⟩
    rw [List.countP_cons_of_pos hpa]
    omega
  | x :: l, i + 1, 0, a, b, _, ha, hb, hpa, hpb => by
    obtain rfl : x = b := by simpa using hb
    have : 0 < l.countP p := List.countP_pos_iff.mpr ⟨a, List.mem_of_getElem? (by simpa using ha), hpa⟩
    rw [List.countP_cons_of_pos hpb]
    omega
  | x :: l, i + 1, j + 1, a, b, hij, ha, hb, hpa, hpb => by
    have := two_le_countP (l := l) (i := i) (j := j) (by omega) (by simpa using ha) (by simpa using hb) hpa hpb
    rw [List.countP_cons]
    omega

end Lib
end Logmon
