/-
# Texts that come apart in one way

A code of words none of which starts another gives every text of words back
(`PrefixCode.flatMap_injective`); a word whose first letter says its length is
such a code. Parts joined by a separator that none of them holds come apart at
it (`append_sep_inj`), and a number below a power of the base is its digits
(`eq_of_digits`).

Key definitions: `PrefixCode`.
Key theorems: `prefixCode_of_length`, `PrefixCode.flatMap_injective`,
`append_sep_inj`, `eq_of_digits`.
-/
import Mathlib.Logic.Function.Basic
import Mathlib.Tactic.Linarith

namespace Logmon
namespace Lib

variable {α β : Type}

/-- No word is empty, and what two words start the same is one word. -/
structure PrefixCode (f : α → List β) : Prop where
  ne_nil : ∀ a, f a ≠ []
  unique : ∀ {a b : α} {l l' : List β}, f a ++ l = f b ++ l' → a = b

/-- Words whose first letter says how long they are. -/
theorem prefixCode_of_length {f : α → List β} (len : β → ℕ) (hinj : Function.Injective f)
    (hlen : ∀ a, (f a).head?.map len = some (f a).length) : PrefixCode f := by
  have hhead : ∀ a, ∃ c cs, f a = c :: cs ∧ len c = (f a).length := by
    intro a
    have ha := hlen a
    cases hf : f a with
    | nil => simp [hf] at ha
    | cons c cs => exact ⟨c, cs, rfl, by simpa [hf] using ha⟩
  refine ⟨fun a h => ?_, fun {a b l l'} h => hinj (List.append_inj_left h ?_)⟩
  · obtain ⟨c, cs, hc, -⟩ := hhead a
    rw [hc] at h
    cases h
  · obtain ⟨c, cs, hc, hca⟩ := hhead a
    obtain ⟨d, ds, hd, hdb⟩ := hhead b
    have hcd : c = d := by
      rw [hc, hd] at h
      exact (List.cons.inj h).1
    rw [← hca, ← hdb, hcd]

/-- **A text of words is one text.** -/
theorem PrefixCode.flatMap_injective {f : α → List β} (h : PrefixCode f) :
    Function.Injective fun l : List α => l.flatMap f := by
  intro l
  induction l with
  | nil =>
    rintro (_ | ⟨b, m⟩) heq
    · rfl
    · have hnil : f b ++ m.flatMap f = [] := heq.symm
      exact absurd (List.append_eq_nil_iff.mp hnil).1 (h.ne_nil b)
  | cons a l ih =>
    rintro (_ | ⟨b, m⟩) heq
    · have hnil : f a ++ l.flatMap f = [] := heq
      exact absurd (List.append_eq_nil_iff.mp hnil).1 (h.ne_nil a)
    · have happ : f a ++ l.flatMap f = f b ++ m.flatMap f := heq
      obtain rfl := h.unique happ
      rw [ih (List.append_cancel_left happ)]

/-- Two texts come apart at the first separator. -/
theorem append_sep_inj {x : α} : ∀ {a b r s : List α}, x ∉ a → x ∉ b → a ++ x :: r = b ++ x :: s → a = b ∧ r = s
  | [], [], _, _, _, _, h => ⟨rfl, (List.cons.inj h).2⟩
  | [], c :: b, _, _, _, hb, h => absurd ((List.cons.inj h).1 ▸ List.mem_cons_self) hb
  | c :: a, [], _, _, ha, _, h => absurd ((List.cons.inj h).1 ▸ List.mem_cons_self) ha
  | c :: a, d :: b, r, s, ha, hb, h => by
    obtain ⟨rfl, htail⟩ := List.cons.inj h
    obtain ⟨rfl, hrest⟩ := append_sep_inj (fun hx => ha (List.mem_cons_of_mem _ hx))
      (fun hx => hb (List.mem_cons_of_mem _ hx)) htail
    exact ⟨rfl, hrest⟩

/-- **A number is its digits.** -/
theorem eq_of_digits {b : ℕ} (hb : 0 < b) : ∀ {k m n : ℕ}, m < b ^ k → n < b ^ k →
    (∀ i < k, m / b ^ i % b = n / b ^ i % b) → m = n
  | 0, m, n, hm, hn, _ => by
    simp only [Nat.pow_zero] at hm hn
    omega
  | k + 1, m, n, hm, hn, h => by
    have hlow : m % b = n % b := by simpa using h 0 (Nat.succ_pos k)
    have hhigh : m / b = n / b := by
      refine eq_of_digits (k := k) hb ?_ ?_ fun i hi => ?_
      · exact Nat.div_lt_of_lt_mul (by rwa [← Nat.pow_succ'])
      · exact Nat.div_lt_of_lt_mul (by rwa [← Nat.pow_succ'])
      · rw [Nat.div_div_eq_div_mul, Nat.div_div_eq_div_mul, ← Nat.pow_succ']
        exact h (i + 1) (Nat.succ_lt_succ hi)
    calc m = b * (m / b) + m % b := (Nat.div_add_mod m b).symm
      _ = b * (n / b) + n % b := by rw [hhigh, hlow]
      _ = n := Nat.div_add_mod n b

end Lib
end Logmon
