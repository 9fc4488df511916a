/-
# Numbers in hexadecimal

A number's lower-case hexadecimal digits, padded with zeros to a width, name
that number and no other (`hex_injective`).

Key definitions: `hex`.
Key theorems: `digitChar_injective`, `hex_injective`.
-/
import Mathlib.Data.Nat.Digits.Lemmas
import Mathlib.Tactic.Linarith

namespace Logmon
namespace Lib

/-- A number in lower-case hexadecimal, padded with zeros to `width`. -/
def hex (width n : ℕ) : String := String.ofList ((Nat.digitsAppend 16 width n).map Nat.digitChar).reverse

theorem digitChar_injective {a b : ℕ} (ha : a < 16) (hb : b < 16) (h : Nat.digitChar a = Nat.digitChar b) : a = b := by
  have hall : ∀ x < 16, ∀ y < 16, Nat.digitChar x = Nat.digitChar y → x = y := by decide
  exact hall a ha b hb h

theorem map_digitChar_inj : ∀ {l m : List ℕ}, (∀ d ∈ l, d < 16) → (∀ d ∈ m, d < 16) →
    l.map Nat.digitChar = m.map Nat.digitChar → l = m
  | [], [], _, _, _ => rfl
  | [], _ :: _, _, _, h => nomatch h
  | _ :: _, [], _, _, h => nomatch h
  | a :: l, b :: m, hl, hm, h => by
    obtain ⟨hab, h⟩ := List.cons_eq_cons.mp h
    obtain ⟨ha, hl⟩ := List.forall_mem_cons.mp hl
    obtain ⟨hb, hm⟩ := List.forall_mem_cons.mp hm
    rw [digitChar_injective ha hb hab, map_digitChar_inj hl hm h]

/-- **A hexadecimal key names one number.** -/
theorem hex_injective (width : ℕ) : Function.Injective (hex width) := by
  intro a b h
  have hlt : ∀ n, ∀ d ∈ Nat.digitsAppend 16 width n, d < 16 := fun _ d hd =>
    Nat.lt_of_mem_digitsAppend (by decide) width d hd
  have hdigits := map_digitChar_inj (hlt a) (hlt b)
    (List.reverse_injective (String.ofList_injective h))
  have hvalue : ∀ n, Nat.ofDigits 16 (Nat.digitsAppend 16 width n) = n := fun n => by
    rw [Nat.digitsAppend, Nat.ofDigits_append_replicate_zero, Nat.ofDigits_digits]
  rw [← hvalue a, hdigits, hvalue b]

end Lib
end Logmon
