/-
# The first element a test accepts

`find?` reads it, `eraseP` is the list without it and `modifyFirst` the list
with it changed in place.

Key definitions: `modifyFirst`.
Key theorems: `mem_modifyFirst`, `find?_modifyFirst`, `sum_modifyFirst`,
`sum_eraseP`.
-/
import Mathlib.Tactic.Linarith

namespace Logmon
namespace Lib

variable {α β : Type}

/-- Change the first element `p` accepts. -/
def modifyFirst (p : α → Bool) (f : α → α) : List α → List α
  | [] => []
  | a :: l => if p a then f a :: l else a :: modifyFirst p f l

/-- An element of the changed list is an old one, or the changed first. -/
theorem mem_modifyFirst {p : α → Bool} {f : α → α} {b : α} : ∀ {l : List α}, b ∈ modifyFirst p f l →
    b ∈ l ∨ ∃ a, l.find? p = some a ∧ b = f a
  | [], h => absurd h List.not_mem_nil
  | a :: l, h => by
    unfold modifyFirst at h
    split at h
    · rename_i ha
      rcases List.mem_cons.mp h with rfl | hb
      · exact .inr ⟨a, by simp [ha], rfl⟩
      · exact .inl (List.mem_cons_of_mem _ hb)
    · rename_i ha
      rcases List.mem_cons.mp h with rfl | hb
      · exact .inl List.mem_cons_self
      · rcases mem_modifyFirst hb with hb | ⟨a', ha', rfl⟩
        · exact .inl (List.mem_cons_of_mem _ hb)
        · exact .inr ⟨a', by simp [ha, ha'], rfl⟩

/-- Where a key tells the elements apart, the others are those with another
key. -/
theorem mem_modifyFirst_of_nodup {p : α → Bool} {f : α → α} {g : α → β} {a b : α} : ∀ {l : List α},
    (l.map g).Nodup → l.find? p = some a → b ∈ modifyFirst p f l → b = f a ∨ (b ∈ l ∧ g b ≠ g a)
  | [], _, _, hb => absurd hb List.not_mem_nil
  | c :: l, hn, ha, hb => by
    obtain ⟨hc, hn⟩ := List.nodup_cons.mp hn
    unfold modifyFirst at hb
    by_cases hp : p c = true
    · rw [List.find?_cons_of_pos hp] at ha
      obtain rfl := Option.some.inj ha
      rw [if_pos hp] at hb
      rcases List.mem_cons.mp hb with rfl | hb
      · exact .inl rfl
      · exact .inr ⟨List.mem_cons_of_mem _ hb, fun hg => hc (hg ▸ List.mem_map_of_mem hb)⟩
    · rw [List.find?_cons_of_neg hp] at ha
      rw [if_neg hp] at hb
      rcases List.mem_cons.mp hb with rfl | hb
      · exact .inr ⟨List.mem_cons_self, fun hg => hc (hg ▸ List.mem_map_of_mem (List.mem_of_find?_eq_some ha))⟩
      · exact (mem_modifyFirst_of_nodup hn ha hb).imp_right fun hb => ⟨List.mem_cons_of_mem _ hb.1, hb.2⟩

/-- What the change keeps of the elements it may reach, it keeps of the
list. -/
theorem map_modifyFirst {p : α → Bool} {f : α → α} {g : α → β} : ∀ {l : List α},
    (∀ a ∈ l, p a = true → g (f a) = g a) → (modifyFirst p f l).map g = l.map g
  | [], _ => rfl
  | a :: l, hg => by
    unfold modifyFirst
    split
    · rename_i ha
      simp [hg a List.mem_cons_self ha]
    · simp [map_modifyFirst fun b hb => hg b (List.mem_cons_of_mem _ hb)]

/-- A change seen through `g` is the change there. -/
theorem modifyFirst_map {p : α → Bool} {q : β → Bool} {f : α → α} {h : β → β} {g : α → β} (hp : ∀ a, q (g a) = p a)
    (hf : ∀ a, h (g a) = g (f a)) : ∀ l : List α, modifyFirst q h (l.map g) = (modifyFirst p f l).map g
  | [] => rfl
  | a :: l => by
    rw [List.map_cons]
    unfold modifyFirst
    rw [hp, hf, modifyFirst_map hp hf l]
    split <;> rfl

/-- The first element another test accepts stays it, where the change neither
reaches it nor makes or unmakes one. -/
theorem find?_modifyFirst_of_ne {p q : α → Bool} {f : α → α} : ∀ {l : List α},
    (∀ a ∈ l, p a = true → q a = false ∧ q (f a) = false) → (modifyFirst p f l).find? q = l.find? q
  | [], _ => rfl
  | a :: l, h => by
    unfold modifyFirst
    split
    · rename_i ha
      obtain ⟨h1, h2⟩ := h a List.mem_cons_self ha
      rw [List.find?_cons_of_neg (by simp [h2]), List.find?_cons_of_neg (by simp [h1])]
    · rw [List.find?_cons, List.find?_cons, find?_modifyFirst_of_ne fun b hb => h b (List.mem_cons_of_mem _ hb)]

/-- The changed element is the first one still, where it still passes. -/
theorem find?_modifyFirst {p : α → Bool} {f : α → α} (hf : ∀ a, p a = true → p (f a) = true) : ∀ l : List α,
    (modifyFirst p f l).find? p = (l.find? p).map f
  | [] => rfl
  | a :: l => by
    unfold modifyFirst
    split
    · rename_i ha
      rw [List.find?_cons_of_pos (hf a ha), List.find?_cons_of_pos ha]
      rfl
    · rename_i ha
      rw [List.find?_cons_of_neg ha, List.find?_cons_of_neg ha, find?_modifyFirst hf l]

/-- A list loses its first `p`, which the other test does not accept. -/
theorem find?_eraseP_of_ne {p q : α → Bool} : ∀ {l : List α}, (∀ a ∈ l, p a = true → q a = false) →
    (l.eraseP p).find? q = l.find? q
  | [], _ => rfl
  | a :: l, h => by
    by_cases ha : p a = true
    · rw [List.eraseP_cons_of_pos ha, List.find?_cons_of_neg (by simp [h a List.mem_cons_self ha])]
    · rw [List.eraseP_cons_of_neg ha, List.find?_cons, List.find?_cons,
        find?_eraseP_of_ne fun b hb => h b (List.mem_cons_of_mem _ hb)]

theorem sum_eraseP {p : α → Bool} {g : α → ℕ} : ∀ {l : List α} {a : α}, l.find? p = some a →
    (l.map g).sum = ((l.eraseP p).map g).sum + g a
  | [], _, h => by simp at h
  | b :: l, a, h => by
    by_cases hb : p b = true
    · rw [List.find?_cons_of_pos hb] at h
      obtain rfl := Option.some.inj h
      rw [List.eraseP_cons_of_pos hb, List.map_cons, List.sum_cons, Nat.add_comm]
    · rw [List.find?_cons_of_neg hb] at h
      rw [List.eraseP_cons_of_neg hb, List.map_cons, List.map_cons, List.sum_cons, List.sum_cons,
        sum_eraseP h, Nat.add_assoc]

theorem sum_modifyFirst {p : α → Bool} {f : α → α} {g : α → ℕ} : ∀ {l : List α} {a : α}, l.find? p = some a →
    ((modifyFirst p f l).map g).sum = ((l.eraseP p).map g).sum + g (f a)
  | [], _, h => by simp at h
  | b :: l, a, h => by
    unfold modifyFirst
    by_cases hb : p b = true
    · rw [List.find?_cons_of_pos hb] at h
      obtain rfl := Option.some.inj h
      rw [if_pos hb, List.eraseP_cons_of_pos hb, List.map_cons, List.sum_cons, Nat.add_comm]
    · rw [List.find?_cons_of_neg hb] at h
      rw [if_neg hb, List.eraseP_cons_of_neg hb, List.map_cons, List.map_cons, List.sum_cons, List.sum_cons,
        sum_modifyFirst h, Nat.add_assoc]

end Lib
end Logmon
