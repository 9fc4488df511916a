/-
# The escapes that are read and those that are written

`unescape` takes back whatever `yaml_str` wrote (`unescape_flatMap`), and
refuses an escape under a letter that it does not write. It takes more than
was written, though: a character that the writer would have escaped is taken
as itself, and `\x` with any two hexadecimal digits is taken for its
character, in capitals and under a sign, whether the writer escapes that
character or not.

The writer's own forms are `Strict`: nothing in them is raw that is written
escaped, and `\x` stands before the two small digits of a control character
that has no letter.

Key definitions: `isPlain`, `isHexControl`, `Strict`.
Key theorems: `strict_iff_written`, `unescape_inverse_iff`.
-/
import Logmon.Cases.Reads

namespace Logmon
namespace Cases

open Lib

/-- A character that is written as itself. -/
def isPlain (c : Char) : Bool :=
  c ≠ '\\' && c ≠ '"' && !(c.toNat < 0x20 || c.toNat == 0x7f) && c ≠ '\u0085' && c ≠ '\u2028' && c ≠ '\u2029'

/-- The two digits of a control character that has no letter. -/
def isHexControl (hi lo : Char) : Bool :=
  (hexPair? hi lo).any fun n =>
    (n < 0x20 || n == 0x7f) && n ≠ 0x09 && n ≠ 0x0a && n ≠ 0x0d && [hi, lo] = hex2 n

/-- The forms the writer uses. -/
def Strict : List Char → Bool
  | [] => true
  | c :: rest =>
    if c ≠ '\\' then isPlain c && Strict rest
    else match rest with
      | [] => false
      | esc :: rest =>
        if esc = 'x' then match rest with
          | hi :: lo :: rest => isHexControl hi lo && Strict rest
          | _ => false
        else (simpleEscape? esc).isSome && Strict rest

/-! ### One character -/

theorem yamlEscape_plain {c : Char} (h : isPlain c = true) : yamlEscape c = [c] := by
  simp only [isPlain, Bool.and_eq_true, decide_eq_true_eq, Bool.not_eq_true'] at h
  obtain ⟨⟨⟨⟨⟨h1, h2⟩, h3⟩, h4⟩, h5⟩, h6⟩ := h
  have hn : c ≠ '\n' := by rintro rfl; exact absurd h3 (by decide)
  have hr : c ≠ '\r' := by rintro rfl; exact absurd h3 (by decide)
  have ht : c ≠ '\t' := by rintro rfl; exact absurd h3 (by decide)
  unfold yamlEscape
  simp only [h1, h2, hn, hr, ht, h3, h4, h5, h6, if_false, Bool.false_eq_true]

/-- A character that is not written as itself is written with a backslash. -/
theorem yamlEscape_not_plain {c : Char} (h : isPlain c = false) : ∃ d ds, yamlEscape c = '\\' :: d :: ds := by
  unfold yamlEscape
  split_ifs with h1 h2 h3 h4 h5 h6 h7 h8 h9
  all_goals try exact ⟨_, _, rfl⟩
  refine absurd h ?_
  simp [isPlain, h1, h2, h6, h7, h8, h9]

/-- An escape of one character is the writer's own. -/
theorem yamlEscape_simple {c d : Char} (h : simpleEscape? d = some c) : yamlEscape c = ['\\', d] := by
  unfold simpleEscape? at h
  split_ifs at h with h1 h2 h3 h4 h5 h6 h7 h8
  all_goals
    obtain rfl := Option.some.inj h
    subst_vars
    rfl

theorem hexPair?_lt {hi lo : Char} {n : ℕ} (h : hexPair? hi lo = some n) : n < 256 := by
  have hdigit : ∀ {c : Char} {k : ℕ}, hexDigit? c = some k → k < 16 := by
    intro c k hk
    unfold hexDigit? at hk
    split_ifs at hk with h1 h2 h3
    · have hle : c.toNat ≤ 57 := (by simpa [Char.isDigit] using h1 : 48 ≤ c.val ∧ c.val ≤ 57).2
      have : c.toNat - 48 = k := by simpa using hk
      omega
    · have hle : c.toNat ≤ 102 := h2.2
      have : c.toNat - 97 + 10 = k := by simpa using hk
      omega
    · have hle : c.toNat ≤ 70 := h3.2
      have : c.toNat - 65 + 10 = k := by simpa using hk
      omega
  obtain ⟨l, hl, hn⟩ := Option.bind_eq_some_iff.mp h
  have := hdigit hl
  split_ifs at hn
  · obtain rfl := Option.some.inj hn
    omega
  · obtain ⟨k, hk, rfl⟩ := Option.map_eq_some_iff.mp hn
    have := hdigit hk
    omega

/-- A character other than the one of number `n` has another number. -/
theorem toNat_ne {c d : Char} (h : c ≠ d) : c.toNat ≠ d.toNat := fun he => h (Char.toNat_inj.mp he)

/-- A control character that has no letter is written by its number. -/
theorem yamlEscape_control {c : Char} (hctl : (c.toNat < 0x20 || c.toNat == 0x7f) = true) (h9 : c.toNat ≠ 0x09)
    (ha : c.toNat ≠ 0x0a) (hd : c.toNat ≠ 0x0d) : yamlEscape c = '\\' :: 'x' :: hex2 c.toNat := by
  have hb : c ≠ '\\' := by rintro rfl; exact absurd hctl (by decide)
  have hq : c ≠ '"' := by rintro rfl; exact absurd hctl (by decide)
  have hn : c ≠ '\n' := by rintro rfl; exact ha rfl
  have hr : c ≠ '\r' := by rintro rfl; exact hd rfl
  have ht : c ≠ '\t' := by rintro rfl; exact h9 rfl
  unfold yamlEscape
  rw [if_neg hb, if_neg hq, if_neg hn, if_neg hr, if_neg ht, if_pos hctl]

/-- No other character is. -/
theorem control_of_yamlEscape {c : Char} {ds : List Char} (h : yamlEscape c = '\\' :: 'x' :: ds) :
    (c.toNat < 0x20 || c.toNat == 0x7f) = true ∧ c.toNat ≠ 0x09 ∧ c.toNat ≠ 0x0a ∧ c.toNat ≠ 0x0d := by
  unfold yamlEscape at h
  split_ifs at h with h1 h2 h3 h4 h5 hctl
  all_goals simp at h
  exact ⟨hctl, toNat_ne h5, toNat_ne h3, toNat_ne h4⟩

/-- **Which numbers are the writer's own.** -/
theorem yamlEscape_hex {hi lo : Char} {n : ℕ} (hn : hexPair? hi lo = some n) (rest : List Char) (l : List Char) :
    yamlEscape (Char.ofNat n) ++ l = '\\' :: 'x' :: hi :: lo :: rest ↔ isHexControl hi lo = true ∧ l = rest := by
  have hlt := hexPair?_lt hn
  have hnat : (Char.ofNat n).toNat = n := by
    have hvalid : n.isValidChar := Or.inl (by omega)
    unfold Char.ofNat
    rw [dif_pos hvalid]
    rfl
  unfold isHexControl
  rw [hn, Option.any_some]
  simp only [Bool.and_eq_true, decide_eq_true_eq]
  refine ⟨fun h => ?_, ?_⟩
  · rcases yamlEscape_cases (Char.ofNat n) with ⟨hb, -, -, -, he⟩ | ⟨d, -, hx, -, -, he⟩ | ⟨-, he⟩
    · rw [he] at h
      exact absurd (List.cons.inj h).1 hb
    · rw [he] at h
      exact absurd (List.cons.inj (List.cons.inj h).2).1 hx
    · obtain ⟨hctl, h9, ha, hd⟩ := control_of_yamlEscape he
      rw [hnat] at hctl h9 ha hd he
      rw [he] at h
      simp only [hex2, List.cons_append, List.nil_append, List.cons.injEq, true_and] at h
      obtain ⟨hhi, hlo, hrest⟩ := h
      refine ⟨⟨⟨⟨⟨hctl, h9⟩, ha⟩, hd⟩, ?_⟩, hrest⟩
      rw [← hhi, ← hlo]
      rfl
  · rintro ⟨⟨⟨⟨⟨hctl, h9⟩, ha⟩, hd⟩, hdigits⟩, rfl⟩
    rw [← hnat] at hctl h9 ha hd
    rw [yamlEscape_control hctl h9 ha hd, hnat, ← hdigits]
    rfl

/-! ### A whole scalar -/

theorem map_cons_ok {c : Char} {x : Except ParseError (List Char)} {l : List Char} (h : x.map (c :: ·) = .ok l) :
    ∃ l', x = .ok l' ∧ l = c :: l' := by
  cases x with
  | error e => cases h
  | ok l' => exact ⟨l', rfl, (Except.ok.inj h).symm⟩

/-- What an accepted text starts with. -/
theorem unescape_cons {base i : ℕ} {c : Char} {rest l : List Char} (h : unescape base i (c :: rest) = .ok l) :
    (c ≠ '\\' ∧ ∃ l', unescape base (i + c.utf8Size) rest = .ok l' ∧ l = c :: l') ∨
    (∃ d e rest' l', c = '\\' ∧ rest = e :: rest' ∧ e ≠ 'x' ∧ simpleEscape? e = some d ∧
      unescape base (i + 1 + e.utf8Size) rest' = .ok l' ∧ l = d :: l') ∨
    (∃ hi lo n rest' l', c = '\\' ∧ rest = 'x' :: hi :: lo :: rest' ∧ hexPair? hi lo = some n ∧
      unescape base (i + 2 + hi.utf8Size + lo.utf8Size) rest' = .ok l' ∧ l = Char.ofNat n :: l') := by
  by_cases hc : c = '\\'
  · subst hc
    cases rest with
    | nil => simp [unescape] at h
    | cons e rest =>
      by_cases hx : e = 'x'
      · subst hx
        rw [unescape.eq_def] at h
        simp only [ne_eq, not_true_eq_false, if_false, if_true] at h
        split at h
        · rename_i hi lo rest'
          split at h
          · rename_i n hn
            split_ifs at h
            obtain ⟨l', hl', rfl⟩ := map_cons_ok h
            exact .inr (.inr ⟨hi, lo, n, rest', l', rfl, rfl, hn, hl', rfl⟩)
          · cases h
        · cases h
      · rw [unescape.eq_def] at h
        simp only [ne_eq, not_true_eq_false, if_false, if_neg hx] at h
        split at h
        · rename_i d hd
          obtain ⟨l', hl', rfl⟩ := map_cons_ok h
          exact .inr (.inl ⟨d, e, rest, l', rfl, rfl, hx, hd, hl', rfl⟩)
        · cases h
  · rw [unescape_plain hc] at h
    obtain ⟨l', hl', rfl⟩ := map_cons_ok h
    exact .inl ⟨hc, l', hl', rfl⟩

theorem strict_plain {c : Char} (hc : c ≠ '\\') (rest : List Char) :
    Strict (c :: rest) = (isPlain c && Strict rest) := by
  rw [Strict.eq_def]
  simp only [ne_eq, hc, not_false_eq_true, if_true]

theorem strict_simple {e d : Char} (hx : e ≠ 'x') (hd : simpleEscape? e = some d) (rest : List Char) :
    Strict ('\\' :: e :: rest) = Strict rest := by
  rw [Strict.eq_def]
  simp [hx, hd]

theorem strict_hex (hi lo : Char) (rest : List Char) :
    Strict ('\\' :: 'x' :: hi :: lo :: rest) = (isHexControl hi lo && Strict rest) := by
  rw [Strict.eq_def]
  simp

/-- An accepted text is what the writer makes of its value exactly when it is
in the writer's own forms. -/
theorem written_iff_strict {base : ℕ} : ∀ (raw : List Char) {i : ℕ} {l : List Char}, unescape base i raw = .ok l →
    (l.flatMap yamlEscape = raw ↔ Strict raw = true)
  | [], i, l, h => by
    obtain rfl : [] = l := by simpa [unescape] using h
    exact ⟨fun _ => rfl, fun _ => rfl⟩
  | c :: rest, i, l, h => by
    rcases unescape_cons h with ⟨hc, l', hl', rfl⟩ | ⟨d, e, rest, l', rfl, rfl, hx, hd, hl', rfl⟩ |
      ⟨hi, lo, n, rest, l', rfl, rfl, hn, hl', rfl⟩
    · have ih := written_iff_strict rest hl'
      rw [List.flatMap_cons, strict_plain hc, Bool.and_eq_true]
      cases hplain : isPlain c with
      | true => simp [yamlEscape_plain hplain, ih]
      | false =>
        obtain ⟨d, ds, hds⟩ := yamlEscape_not_plain hplain
        rw [hds]
        refine ⟨fun heq => absurd (List.cons.inj heq).1 (Ne.symm hc), fun hno => ?_⟩
        simp at hno
    · have ih := written_iff_strict rest hl'
      rw [List.flatMap_cons, strict_simple hx hd, yamlEscape_simple hd, ← ih]
      simp
    · have ih := written_iff_strict rest hl'
      rw [List.flatMap_cons, yamlEscape_hex hn, strict_hex, Bool.and_eq_true, ih]

/-- The writer's own forms are accepted. -/
theorem unescape_of_strict {base : ℕ} : ∀ (raw : List Char) (i : ℕ), Strict raw = true →
    ∃ l, unescape base i raw = .ok l
  | [], _, _ => ⟨[], rfl⟩
  | c :: rest, i, h => by
    by_cases hc : c = '\\'
    · subst hc
      rw [Strict.eq_def] at h
      simp only [ne_eq, not_true_eq_false, if_false] at h
      split at h
      · cases h
      · rename_i e rest
        split_ifs at h with hx
        · subst hx
          split at h
          · rename_i hi lo rest
            obtain ⟨hctl, hrest⟩ := Bool.and_eq_true_iff.mp h
            obtain ⟨n, hn⟩ : ∃ n, hexPair? hi lo = some n := by
              cases hn : hexPair? hi lo with
              | some n => exact ⟨n, rfl⟩
              | none => simp [isHexControl, hn] at hctl
            obtain ⟨l, hl⟩ := unescape_of_strict rest (i + 2 + hi.utf8Size + lo.utf8Size) hrest
            have hlt := hexPair?_lt hn
            exact ⟨_, by rw [unescape_hex hn (Or.inl (by omega)), hl]; rfl⟩
          · cases h
        · obtain ⟨hsimple, hrest⟩ := Bool.and_eq_true_iff.mp h
          obtain ⟨d, hd⟩ := Option.isSome_iff_exists.mp hsimple
          obtain ⟨l, hl⟩ := unescape_of_strict rest (i + 1 + e.utf8Size) hrest
          exact ⟨_, by rw [unescape_simple hx hd, hl]; rfl⟩
    · rw [strict_plain hc] at h
      obtain ⟨l, hl⟩ := unescape_of_strict rest (i + c.utf8Size) (Bool.and_eq_true_iff.mp h).2
      exact ⟨_, by rw [unescape_plain hc, hl]; rfl⟩

/-- **The writer's own forms are those it writes**, each for one text. -/
theorem strict_iff_written (raw : List Char) : Strict raw = true ↔ ∃ l : List Char, l.flatMap yamlEscape = raw := by
  refine ⟨fun h => ?_, ?_⟩
  · obtain ⟨l, hl⟩ := @unescape_of_strict 0 raw 0 h
    exact ⟨l, (written_iff_strict raw hl).mpr h⟩
  · rintro ⟨l, rfl⟩
    exact (written_iff_strict _ (unescape_flatMap 0 l 0)).mp rfl

/-- **What is written is taken back, and an accepted text is what the writer
makes of its value exactly when it is in the writer's own forms.** -/
theorem unescape_inverse_iff {base : ℕ} {raw l : List Char} (h : unescape base 0 raw = .ok l) :
    (∀ s : String, ∃ inside, yamlStr s = '"' :: (inside ++ ['"']) ∧ unescape base 0 inside = .ok s.toList) ∧
      (yamlStr (String.ofList l) = '"' :: (raw ++ ['"']) ↔ Strict raw = true) := by
  refine ⟨fun s => ⟨_, rfl, unescape_flatMap base s.toList 0⟩, ?_⟩
  rw [← written_iff_strict raw h]
  unfold yamlStr
  simp

/-- A line end, and the escape character by its number. -/
theorem unescape_line_end : Strict ['\\', 'n', '\\', 'x', '1', 'b'] = true ∧
    yamlStr (String.ofList ['\n', '\x1b']) = '"' :: (['\\', 'n', '\\', 'x', '1', 'b'] ++ ['"']) := by
  have hstrict : Strict ['\\', 'n', '\\', 'x', '1', 'b'] = true := by decide
  have hread : unescape 0 0 ['\\', 'n', '\\', 'x', '1', 'b'] = .ok ['\n', '\x1b'] := by decide
  exact ⟨hstrict, (unescape_inverse_iff hread).2.mpr hstrict⟩

/-- A letter by its number is accepted, and not written so. -/
theorem unescape_letter_by_number : unescape 0 0 ['\\', 'x', '4', '1'] = .ok ['A'] ∧
    yamlStr (String.ofList ['A']) ≠ '"' :: (['\\', 'x', '4', '1'] ++ ['"']) := by decide

end Cases
end Logmon
