/-
# Text as a list of characters

What programs do with text one character at a time: split at a character or at
line ends, find a text, trim, read a number. Each with what it makes of a text
that was put together the other way round.

Key definitions: `isWhiteSpace`, `trim`, `splitOnce`, `lines`, `unlines`,
`textBefore`, `parseNat?`.
Key theorems: `trim_eq_self`, `splitOnce_append`, `lines_unlines`,
`textBefore_unlines`, `parseNat?_toString`.
-/
import Mathlib.Tactic.Linarith

namespace Logmon
namespace Lib

/-- Unicode `White_Space`. -/
def isWhiteSpace (c : Char) : Bool :=
  (0x9 ≤ c.toNat && c.toNat ≤ 0xD) || c.toNat == 0x20 || c.toNat == 0x85 || c.toNat == 0xA0 || c.toNat == 0x1680 ||
    (0x2000 ≤ c.toNat && c.toNat ≤ 0x200A) || c.toNat == 0x2028 || c.toNat == 0x2029 || c.toNat == 0x202F ||
    c.toNat == 0x205F || c.toNat == 0x3000

theorem isAlphanum_lt {c : Char} (h : c.isAlphanum = true) : c.toNat < 128 := by
  change ((c.isUpper || c.isLower) || c.isDigit) = true at h
  rw [Bool.or_eq_true, Bool.or_eq_true] at h
  rcases h with (h | h) | h
  · have hle : c.val ≤ 'Z'.val := (of_decide_eq_true h).2
    exact lt_of_le_of_lt hle (by decide)
  · have hle : c.val ≤ 'z'.val := of_decide_eq_true (Bool.and_eq_true_iff.mp h).2
    exact lt_of_le_of_lt hle (by decide)
  · have hle : c.val ≤ '9'.val := of_decide_eq_true (Bool.and_eq_true_iff.mp h).2
    exact lt_of_le_of_lt hle (by decide)

/-- Without the white space at both ends. -/
def trim (l : List Char) : List Char := ((l.dropWhile isWhiteSpace).reverse.dropWhile isWhiteSpace).reverse

/-- No white space at either end. -/
def Trimmed (l : List Char) : Prop :=
  (∀ c ∈ l.head?, isWhiteSpace c = false) ∧ ∀ c ∈ l.getLast?, isWhiteSpace c = false

theorem dropWhile_eq_self {p : Char → Bool} {l : List Char} (h : ∀ c ∈ l.head?, p c = false) : l.dropWhile p = l := by
  cases l with
  | nil => rfl
  | cons c l => rw [List.dropWhile_cons_of_neg (by simpa using h c rfl)]

/-- A text is taken and left whole where what follows it begins otherwise. -/
theorem takeWhile_append_stop {p : Char → Bool} {l rest : List Char} (hl : ∀ c ∈ l, p c = true)
    (hrest : ∀ c ∈ rest.head?, p c = false) :
    (l ++ rest).takeWhile p = l ∧ (l ++ rest).dropWhile p = rest := by
  rw [List.takeWhile_append_of_pos hl, List.dropWhile_append_of_pos hl, dropWhile_eq_self hrest]
  refine ⟨?_, rfl⟩
  cases rest with
  | nil => simp
  | cons c rest => rw [List.takeWhile_cons_of_neg (by simpa using hrest c rfl), List.append_nil]

theorem trim_eq_self {l : List Char} (h : Trimmed l) : trim l = l := by
  unfold trim
  rw [dropWhile_eq_self h.1, dropWhile_eq_self, List.reverse_reverse]
  rw [List.head?_reverse]
  exact h.2

theorem head?_dropWhile {p : Char → Bool} {l : List Char} {c : Char} (h : c ∈ (l.dropWhile p).head?) : p c = false := by
  have := List.head?_dropWhile_not p l
  rw [Option.mem_def.mp h] at this
  exact this

/-- A property of each character, checked along the list: a bounded `decide`
would run over every `Char`. -/
theorem forall_mem_of_all {p : Char → Prop} [DecidablePred p] {l : List Char} (h : (l.all fun c => p c) = true) :
    ∀ c ∈ l, p c := fun c hc => of_decide_eq_true (List.all_eq_true.mp h c hc)

/-- A text is white space, what trimming leaves, and white space. -/
theorem exists_trim (l : List Char) : ∃ a b, l = a ++ (trim l ++ b) ∧ (∀ c ∈ a, isWhiteSpace c = true) ∧
    ∀ c ∈ b, isWhiteSpace c = true := by
  let tail := l.dropWhile isWhiteSpace
  refine ⟨l.takeWhile isWhiteSpace, (tail.reverse.takeWhile isWhiteSpace).reverse, ?_, fun c hc => ?_, fun c hc => ?_⟩
  · have htail : trim l ++ (tail.reverse.takeWhile isWhiteSpace).reverse = tail := by
      unfold trim
      rw [← List.reverse_append, List.takeWhile_append_dropWhile, List.reverse_reverse]
    rw [htail, List.takeWhile_append_dropWhile]
  · exact List.all_eq_true.mp List.all_takeWhile c hc
  · exact List.all_eq_true.mp List.all_takeWhile c (List.mem_reverse.mp hc)

theorem trim_sublist (l : List Char) : (trim l).Sublist l := by
  obtain ⟨a, b, hl, -, -⟩ := exists_trim l
  conv_rhs => rw [hl]
  exact (List.sublist_append_left _ b).trans (List.sublist_append_right a _)

theorem trimmed_trim (l : List Char) : Trimmed (trim l) := by
  constructor
  · intro c hc
    have htail : trim l <+: l.dropWhile isWhiteSpace := by
      have := (List.dropWhile_suffix isWhiteSpace (l := (l.dropWhile isWhiteSpace).reverse)).reverse
      rwa [List.reverse_reverse] at this
    obtain ⟨b, hb⟩ := htail
    have hhead : c ∈ (l.dropWhile isWhiteSpace).head? := by
      rw [← hb, List.head?_append, Option.mem_def.mp hc]
      rfl
    exact head?_dropWhile hhead
  · intro c hc
    unfold trim at hc
    rw [List.getLast?_reverse] at hc
    exact head?_dropWhile hc

theorem trim_trim (l : List Char) : trim (trim l) = trim l := trim_eq_self (trimmed_trim l)

theorem trimmed_of_trim_eq {l : List Char} (h : trim l = l) : Trimmed l := h ▸ trimmed_trim l

/-- White space around a text is trimmed with its own. -/
theorem trim_append {a b : List Char} (l : List Char) (ha : ∀ c ∈ a, isWhiteSpace c = true)
    (hb : ∀ c ∈ b, isWhiteSpace c = true) : trim (a ++ (l ++ b)) = trim l := by
  unfold trim
  rw [List.dropWhile_append_of_pos ha, List.dropWhile_append]
  split_ifs with h
  · have hl : l.dropWhile isWhiteSpace = [] := List.isEmpty_iff.mp h
    have hb' : b.dropWhile isWhiteSpace = [] := by rw [← List.append_nil b, List.dropWhile_append_of_pos hb]; rfl
    rw [hl, hb']
  · rw [List.reverse_append, List.dropWhile_append_of_pos fun c hc => hb c (List.mem_reverse.mp hc)]

/-- The text before and after the first `c`. -/
def splitOnce (c : Char) : List Char → Option (List Char × List Char)
  | [] => none
  | a :: l => if a = c then some ([], l) else (splitOnce c l).map fun p => (a :: p.1, p.2)

theorem splitOnce_append {c : Char} (rest : List Char) : ∀ {l : List Char}, c ∉ l →
    splitOnce c (l ++ c :: rest) = some (l, rest)
  | [], _ => by simp [splitOnce]
  | a :: l, h => by
    obtain ⟨hne, hl⟩ := not_or.mp (mt List.mem_cons.mpr h)
    rw [List.cons_append, splitOnce, if_neg (Ne.symm hne), splitOnce_append rest hl]
    rfl

theorem splitOnce_eq {c : Char} : ∀ {l a b : List Char}, splitOnce c l = some (a, b) → l = a ++ c :: b ∧ c ∉ a
  | [], a, b, h => by cases h
  | d :: l, a, b, h => by
    unfold splitOnce at h
    split_ifs at h with hd
    · obtain ⟨rfl, rfl⟩ := Prod.mk.inj (Option.some.inj h)
      exact ⟨by rw [hd]; rfl, by simp⟩
    · obtain ⟨⟨a', b'⟩, hs, heq⟩ := Option.map_eq_some_iff.mp h
      obtain ⟨rfl, rfl⟩ := Prod.mk.inj heq
      obtain ⟨rfl, hnot⟩ := splitOnce_eq hs
      exact ⟨rfl, by simp [Ne.symm hd, hnot]⟩

/-- The lines of a text, without the `\n` or `\r\n` that ends them. -/
def lines : List Char → List (List Char)
  | [] => []
  | '\r' :: '\n' :: rest => [] :: lines rest
  | '\n' :: rest => [] :: lines rest
  | c :: rest =>
    match lines rest with
    | [] => [[c]]
    | l :: ls => (c :: l) :: ls

/-- Each line takes a character at least. -/
theorem length_lines_le : ∀ l : List Char, (lines l).length ≤ l.length := by
  intro l
  induction l using lines.induct with
  | case1 => exact Nat.le_refl _
  | case2 rest ih =>
    rw [lines, List.length_cons, List.length_cons, List.length_cons]
    omega
  | case3 rest ih =>
    rw [lines, List.length_cons, List.length_cons]
    omega
  | case4 c rest hcr hlf heq ih =>
    rw [lines, heq]
    · simp
    · exact hcr
    · exact hlf
  | case5 c rest hcr hlf m ms heq ih =>
    rw [heq] at ih
    rw [lines, heq]
    · simpa using Nat.le_succ_of_le ih
    · exact hcr
    · exact hlf

/-- Lines with a `\n` between each two. -/
def unlines : List (List Char) → List Char
  | [] => []
  | [l] => l
  | l :: ls => l ++ '\n' :: unlines ls

theorem unlines_cons_cons (l m : List Char) (ls : List (List Char)) :
    unlines (l :: m :: ls) = l ++ '\n' :: unlines (m :: ls) := rfl

/-- A text no line end is in. -/
def OneLine (l : List Char) : Prop := '\n' ∉ l ∧ '\r' ∉ l

instance (l : List Char) : Decidable (OneLine l) := inferInstanceAs (Decidable (_ ∧ _))

theorem lines_cons {c : Char} (h : c ≠ '\n') (h' : c ≠ '\r') (rest : List Char) :
    lines (c :: rest) = match lines rest with
      | [] => [[c]]
      | l :: ls => (c :: l) :: ls := by
  conv_lhs => unfold lines
  split
  · rename_i heq
    exact absurd heq (List.cons_ne_nil _ _)
  · rename_i heq
    exact absurd (List.cons.inj heq).1 h'
  · rename_i heq
    exact absurd (List.cons.inj heq).1 h
  · rename_i heq
    obtain ⟨rfl, rfl⟩ := List.cons.inj heq
    rfl

/-- A line, and what follows its end. -/
theorem lines_append (rest : List Char) : ∀ {l : List Char}, OneLine l → lines (l ++ '\n' :: rest) = l :: lines rest
  | [], _ => by
    rw [List.nil_append, lines]
  | c :: l, h => by
    obtain ⟨hn, hr⟩ := h
    rw [List.cons_append, lines_cons (fun he => hn (he ▸ List.mem_cons_self)) (fun he => hr (he ▸ List.mem_cons_self)),
      lines_append rest ⟨fun hm => hn (List.mem_cons_of_mem _ hm), fun hm => hr (List.mem_cons_of_mem _ hm)⟩]

theorem lines_single : ∀ {l : List Char}, OneLine l → l ≠ [] → lines l = [l]
  | [], _, h => absurd rfl h
  | [c], h, _ => by
    rw [lines_cons (fun he => h.1 (he ▸ List.mem_cons_self)) (fun he => h.2 (he ▸ List.mem_cons_self))]
    rfl
  | c :: d :: l, h, _ => by
    rw [lines_cons (fun he => h.1 (he ▸ List.mem_cons_self)) (fun he => h.2 (he ▸ List.mem_cons_self)),
      lines_single ⟨fun hm => h.1 (List.mem_cons_of_mem _ hm), fun hm => h.2 (List.mem_cons_of_mem _ hm)⟩ (by simp)]

/-- The lines put together are the lines taken apart. -/
theorem lines_unlines : ∀ {ls : List (List Char)}, (∀ l ∈ ls, OneLine l ∧ l ≠ []) → lines (unlines ls) = ls
  | [], _ => rfl
  | [l], h => lines_single (h l List.mem_cons_self).1 (h l List.mem_cons_self).2
  | l :: m :: ls, h => by
    rw [unlines_cons_cons, lines_append _ (h l List.mem_cons_self).1,
      lines_unlines fun x hx => h x (List.mem_cons_of_mem _ hx)]

/-- The text before the first `needle`. -/
def textBefore (needle : List Char) : List Char → Option (List Char)
  | [] => if needle.isEmpty then some [] else none
  | c :: l => if needle.isPrefixOf (c :: l) then some [] else (textBefore needle l).map (c :: ·)

theorem textBefore_prefix {needle : List Char} : ∀ {l a : List Char}, textBefore needle l = some a → ∃ b, l = a ++ b
  | [], a, h => by
    unfold textBefore at h
    split_ifs at h
    exact ⟨[], by simpa using h⟩
  | c :: l, a, h => by
    unfold textBefore at h
    split_ifs at h
    · obtain rfl : [] = a := by simpa using h
      exact ⟨_, rfl⟩
    · obtain ⟨a', ha', rfl⟩ := Option.map_eq_some_iff.mp h
      obtain ⟨b, rfl⟩ := textBefore_prefix ha'
      exact ⟨b, rfl⟩

theorem textBefore_cons_of_ne {n c : Char} {needle l : List Char} (h : c ≠ n) :
    textBefore (n :: needle) (c :: l) = (textBefore (n :: needle) l).map (c :: ·) := by
  rw [textBefore, if_neg]
  simp [List.isPrefixOf, Ne.symm h]

/-- Text without the needle's first character passes. -/
theorem textBefore_append {n : Char} {needle rest : List Char} : ∀ {l : List Char}, n ∉ l →
    textBefore (n :: needle) (l ++ rest) = (textBefore (n :: needle) rest).map (l ++ ·)
  | [], _ => by
    rw [List.nil_append]
    cases textBefore (n :: needle) rest <;> rfl
  | c :: l, h => by
    obtain ⟨hne, hl⟩ := not_or.mp (mt List.mem_cons.mpr h)
    rw [List.cons_append, textBefore_cons_of_ne (Ne.symm hne), textBefore_append hl]
    cases textBefore (n :: needle) rest <;> rfl

/-- What ends a block of lines is found where the block ends: no line begins
as the text after the line end does. -/
theorem textBefore_unlines {n : Char} {needle rest : List Char} : ∀ {ls : List (List Char)}, ls ≠ [] →
    (∀ l ∈ ls, '\n' ∉ l ∧ l.head? ≠ none ∧ l.head? ≠ some n) →
    textBefore ('\n' :: n :: needle) (unlines ls ++ '\n' :: n :: needle ++ rest) = some (unlines ls)
  | [], h, _ => absurd rfl h
  | [l], _, h => by
    rw [unlines, List.append_assoc, textBefore_append (h l List.mem_cons_self).1]
    have hfound : textBefore ('\n' :: n :: needle) ('\n' :: n :: needle ++ rest) = some [] := by
      rw [List.cons_append, textBefore, if_pos]
      rw [← List.cons_append]
      exact List.isPrefixOf_iff_prefix.mpr (List.prefix_append _ _)
    rw [hfound]
    simp
  | l :: m :: ls, _, h => by
    have hm := h m (by simp)
    -- the line end before `m` is not the needle: `m` begins otherwise
    have hpass : textBefore ('\n' :: n :: needle) ('\n' :: (unlines (m :: ls) ++ '\n' :: n :: needle ++ rest)) =
        (textBefore ('\n' :: n :: needle) (unlines (m :: ls) ++ '\n' :: n :: needle ++ rest)).map ('\n' :: ·) := by
      rw [textBefore, if_neg]
      obtain ⟨a, tail, htail⟩ : ∃ a tail, m = a :: tail := by
        cases m with
        | nil => exact absurd rfl hm.2.1
        | cons a tail => exact ⟨a, tail, rfl⟩
      have hhead : ∃ t, unlines (m :: ls) = a :: t := by
        cases ls with
        | nil => exact ⟨tail, by rw [unlines, htail]⟩
        | cons x xs => exact ⟨tail ++ '\n' :: unlines (x :: xs), by rw [unlines_cons_cons, htail, List.cons_append]⟩
      obtain ⟨t, ht⟩ := hhead
      have hne : n ≠ a := fun he => hm.2.2 (by rw [htail, he]; rfl)
      simp [ht, List.isPrefixOf, hne]
    have hrec : textBefore ('\n' :: n :: needle) (unlines (m :: ls) ++ '\n' :: n :: needle ++ rest) =
        some (unlines (m :: ls)) :=
      textBefore_unlines (List.cons_ne_nil _ _) fun x hx => h x (List.mem_cons_of_mem _ hx)
    have hsplit : unlines (l :: m :: ls) ++ '\n' :: n :: needle ++ rest =
        l ++ '\n' :: (unlines (m :: ls) ++ '\n' :: n :: needle ++ rest) := by
      simp [unlines_cons_cons]
    rw [hsplit, textBefore_append (h l List.mem_cons_self).1, hpass, hrec, unlines_cons_cons]
    rfl

/-- A decimal number up to `max`; a leading `+` is allowed. -/
def parseNat? (max : ℕ) (l : List Char) : Option ℕ :=
  let digits := if l.head? = some '+' then l.tail else l
  if digits.isEmpty || !digits.all Char.isDigit then none
  else if Nat.ofDigitChars 10 digits 0 ≤ max then some (Nat.ofDigitChars 10 digits 0) else none

theorem isDigit_of_mem_toString {n : ℕ} {c : Char} (h : c ∈ (toString n).toList) : c.isDigit = true := by
  rw [Nat.toString_eq_ofList_toDigits, String.toList_ofList] at h
  exact Nat.isDigit_of_mem_toDigits (by decide) (by decide) h

theorem toString_ne_nil (n : ℕ) : (toString n).toList ≠ [] := by
  rw [Nat.toString_eq_ofList_toDigits, String.toList_ofList]
  exact Nat.toDigits_ne_nil

theorem parseNat?_toString {max n : ℕ} (h : n ≤ max) : parseNat? max (toString n).toList = some n := by
  have hplus : (toString n).toList.head? ≠ some '+' := by
    intro hh
    have := isDigit_of_mem_toString (List.mem_of_head? hh)
    simp at this
  have hall : (toString n).toList.all Char.isDigit = true := List.all_eq_true.mpr fun c hc => isDigit_of_mem_toString hc
  have hval : Nat.ofDigitChars 10 (toString n).toList 0 = n := by simp
  unfold parseNat?
  simp only [if_neg hplus, hall, hval]
  simp [h]

end Lib
end Logmon
