/-
# Lifetimes as texts

`domain_data/entry.rs`: a lifetime is one integer and one unit, `30s` to `4w`.
The text is split one byte before its end, which is no place to split a text
that ends in a character of more bytes.

Key definitions: `unitSecs`, `parseDuration`, `renderDuration`, `Literal`.
Key theorems: `parseDuration_pos`, `parseDuration_render`, `parseDuration_iff`.
-/
import Logmon.Lib.Text
import Logmon.Lib.Word

namespace Logmon
namespace DomainData

open Lib

inductive TtlParseError
  | malformed
  | zero
  | overflow
  deriving DecidableEq

/-- The seconds of a unit. -/
def unitSecs : Char → Option ℕ
  | 's' => some 1
  | 'm' => some 60
  | 'h' => some 3600
  | 'd' => some 86400
  | 'w' => some 604800
  | _ => none

/-- `parse_duration`. `none` is a panic: `split_at` inside the last
character. -/
def parseDuration (s : String) : Option (Except TtlParseError ℕ) :=
  match s.toList.getLast? with
  | none => some (.error .malformed)
  | some unit =>
    if 1 < unit.utf8Size then none
    else match unitSecs unit with
      | none => some (.error .malformed)
      | some mult =>
        let digits := s.toList.dropLast
        if digits.isEmpty || !digits.all Char.isDigit then some (.error .malformed)
        else match parseNat? u64Max digits with
          | none => some (.error .overflow)
          | some n =>
            if n = 0 then some (.error .zero)
            else if u64Max < n * mult then some (.error .overflow)
            else some (.ok (n * mult))

theorem unitSecs_pos {c : Char} {mult : ℕ} (h : unitSecs c = some mult) : 0 < mult := by
  unfold unitSecs at h
  split at h <;> simp only [Option.some.injEq, reduceCtorEq] at h <;> omega

/-- An accepted lifetime is not zero. -/
theorem parseDuration_pos {s : String} {secs : ℕ} (h : parseDuration s = some (.ok secs)) : 0 < secs := by
  unfold parseDuration at h
  split at h
  · simp at h
  split at h
  · simp at h
  split at h
  · simp at h
  rename_i mult hmult
  dsimp only at h
  split at h
  · simp at h
  split at h
  · simp at h
  split at h
  · simp at h
  rename_i n _ hn
  split at h
  · simp at h
  obtain rfl : n * mult = secs := by simpa using h
  exact Nat.mul_pos (Nat.pos_of_ne_zero hn) (unitSecs_pos hmult)

/-- A number of units has a text. -/
theorem parseDuration_units {n mult : ℕ} {unit : Char} (hunit : unitSecs unit = some mult) (hsize : unit.utf8Size = 1)
    (hpos : 0 < n) (hle : n * mult ≤ u64Max) :
    parseDuration (toString n ++ String.singleton unit) = some (.ok (n * mult)) := by
  have hlist : (toString n ++ String.singleton unit).toList = (toString n).toList ++ [unit] := by simp
  have hdigits : (toString n).toList.all Char.isDigit = true :=
    List.all_eq_true.mpr fun c hc => isDigit_of_mem_toString hc
  have hne : (toString n).toList.isEmpty = false := by simp
  have hn : n ≤ u64Max := Nat.le_trans (Nat.le_mul_of_pos_right n (unitSecs_pos hunit)) hle
  unfold parseDuration
  rw [hlist]
  have hzero : ¬ n = 0 := by omega
  have hover : ¬ u64Max < n * mult := by omega
  have hbyte : ¬ 1 < unit.utf8Size := by omega
  simp only [List.getLast?_append, List.getLast?_singleton, Option.some_or, hbyte, ↓reduceIte, hunit,
    List.dropLast_concat, hne, hdigits, Bool.not_true, Bool.or_false, Bool.false_eq_true, parseNat?_toString hn, hzero,
    hover]

/-- Every positive number of seconds has a text. -/
theorem parseDuration_secs {secs : ℕ} (hpos : 0 < secs) (hle : secs ≤ u64Max) :
    parseDuration (toString secs ++ "s") = some (.ok secs) := by
  have h := @parseDuration_units secs 1 's' rfl (by decide) hpos (by omega)
  rwa [Nat.mul_one] at h

/-- The units a number of seconds is tried in, the largest first. -/
def renderUnits : List (Char × ℕ) := [('w', 604800), ('d', 86400), ('h', 3600), ('m', 60)]

/-- `render_duration`: the shortest exact text. -/
def renderDuration (secs : ℕ) : String :=
  match renderUnits.find? fun u => secs % u.2 = 0 with
  | some (unit, mult) => toString (secs / mult) ++ String.singleton unit
  | none => toString secs ++ "s"

/-- A rendered lifetime reads back. -/
theorem parseDuration_render {secs : ℕ} (hpos : 0 < secs) (hle : secs ≤ u64Max) :
    parseDuration (renderDuration secs) = some (.ok secs) := by
  unfold renderDuration
  split
  · rename_i unit mult hfind
    have hmul : secs / mult * mult = secs :=
      Nat.div_mul_cancel (Nat.dvd_of_mod_eq_zero (by simpa using List.find?_some hfind))
    have hunit : unitSecs unit = some mult ∧ unit.utf8Size = 1 := by
      have hmem := List.mem_of_find?_eq_some hfind
      simp only [renderUnits, List.mem_cons, List.not_mem_nil, or_false, Prod.mk.injEq] at hmem
      rcases hmem with ⟨rfl, rfl⟩ | ⟨rfl, rfl⟩ | ⟨rfl, rfl⟩ | ⟨rfl, rfl⟩ <;> exact ⟨rfl, by decide⟩
    have hquot : 0 < secs / mult := by
      refine Nat.pos_of_ne_zero fun hzero => ?_
      rw [hzero, Nat.zero_mul] at hmul
      omega
    have h := parseDuration_units hunit.1 hunit.2 hquot (by omega)
    rwa [hmul] at h
  · exact parseDuration_secs hpos hle

/-- The text is digits and a unit, and stands for `secs`. -/
def Literal (s : String) (secs : ℕ) : Prop :=
  ∃ digits unit mult, s.toList = digits ++ [unit] ∧ digits ≠ [] ∧ digits.all Char.isDigit = true ∧
    unitSecs unit = some mult ∧ secs = Nat.ofDigitChars 10 digits 0 * mult ∧ 0 < secs ∧ secs ≤ u64Max

/-- A run of digits is read as the number it is. -/
theorem parseNat?_digits {max : ℕ} {digits : List Char} (hne : digits ≠ []) (hall : digits.all Char.isDigit = true) :
    parseNat? max digits =
      if Nat.ofDigitChars 10 digits 0 ≤ max then some (Nat.ofDigitChars 10 digits 0) else none := by
  have hplus : digits.head? ≠ some '+' := by
    intro hhead
    have hdigit := List.all_eq_true.mp hall _ (List.mem_of_head? hhead)
    simp at hdigit
  have hempty : digits.isEmpty = false := by simpa using hne
  simp only [parseNat?, if_neg hplus, hempty, hall, Bool.not_true, Bool.or_false, Bool.false_eq_true, ↓reduceIte]

theorem literal_iff {s : String} {digits : List Char} {unit : Char} (hs : s.toList = digits ++ [unit]) (secs : ℕ) :
    Literal s secs ↔ digits ≠ [] ∧ digits.all Char.isDigit = true ∧
      ∃ mult, unitSecs unit = some mult ∧ secs = Nat.ofDigitChars 10 digits 0 * mult ∧ 0 < secs ∧ secs ≤ u64Max := by
  constructor
  · rintro ⟨digits', unit', mult, hs', hne, hall, hunit, hsecs⟩
    obtain ⟨rfl, hlast⟩ := List.append_inj' (hs.symm.trans hs') rfl
    obtain rfl : unit = unit' := List.singleton_inj.mp hlast
    exact ⟨hne, hall, mult, hunit, hsecs⟩
  · rintro ⟨hne, hall, mult, hunit, hsecs⟩
    exact ⟨digits, unit, mult, hs, hne, hall, hunit, hsecs⟩

/-- **What is accepted**: where the text can be split before its last byte, the
literals and nothing else. -/
theorem parseDuration_iff {s : String} {result : Except TtlParseError ℕ} (h : parseDuration s = some result) (secs : ℕ) :
    result = .ok secs ↔ Literal s secs := by
  rcases List.eq_nil_or_concat s.toList with hs | ⟨digits, unit, hs⟩
  · have herr : result = .error .malformed := by
      rw [parseDuration, hs] at h
      exact (Option.some.inj h).symm
    rw [herr]
    exact iff_of_false (by simp) fun ⟨digits, unit, _, hlist, _⟩ => by simp [hs] at hlist
  rw [List.concat_eq_append] at hs
  rw [literal_iff hs]
  unfold parseDuration at h
  rw [hs] at h
  simp only [List.getLast?_append, List.getLast?_singleton, Option.some_or, List.dropLast_concat] at h
  split at h
  · simp at h
  cases hunit : unitSecs unit with
  | none =>
    rw [hunit] at h
    obtain rfl : _ = result := Option.some.inj h
    exact iff_of_false (by simp) fun ⟨_, _, _, hmult, _⟩ => by simp at hmult
  | some mult =>
    rw [hunit] at h
    dsimp only at h
    split at h
    · rename_i hbad
      obtain rfl : _ = result := Option.some.inj h
      refine iff_of_false (by simp) fun ⟨hne, hall, _⟩ => ?_
      simp [hne, hall] at hbad
    rename_i hgood
    have hgood : digits ≠ [] ∧ digits.all Char.isDigit = true := by simpa using hgood
    have hmult := unitSecs_pos hunit
    rw [parseNat?_digits hgood.1 hgood.2] at h
    have hside : (digits ≠ [] ∧ digits.all Char.isDigit = true ∧ ∃ m, some mult = some m ∧
          secs = Nat.ofDigitChars 10 digits 0 * m ∧ 0 < secs ∧ secs ≤ u64Max) ↔
        secs = Nat.ofDigitChars 10 digits 0 * mult ∧ 0 < secs ∧ secs ≤ u64Max :=
      ⟨fun ⟨_, _, _, hm, hsecs⟩ => Option.some.inj hm ▸ hsecs, fun hsecs => ⟨hgood.1, hgood.2, mult, rfl, hsecs⟩⟩
    rw [hside]
    generalize Nat.ofDigitChars 10 digits 0 = n at h ⊢
    by_cases hfits : n ≤ u64Max
    · rw [if_pos hfits] at h
      dsimp only at h
      split at h
      · rename_i hzero
        obtain rfl : _ = result := Option.some.inj h
        exact iff_of_false (by simp) fun ⟨hsecs, hpos, _⟩ => by simp [hzero, hsecs] at hpos
      split at h
      · obtain rfl : _ = result := Option.some.inj h
        exact iff_of_false (by simp) fun ⟨hsecs, _, hle⟩ => by omega
      · rename_i hn hle
        obtain rfl : _ = result := Option.some.inj h
        have hpos : 0 < n * mult := Nat.mul_pos (Nat.pos_of_ne_zero hn) hmult
        constructor
        · intro heq
          obtain rfl : _ = secs := Except.ok.inj heq
          exact ⟨rfl, hpos, by omega⟩
        · rintro ⟨rfl, -⟩
          rfl
    · rw [if_neg hfits] at h
      obtain rfl : _ = result := Option.some.inj h
      refine iff_of_false (by simp) fun ⟨hsecs, _, hle⟩ => hfits ?_
      exact Nat.le_trans (Nat.le_mul_of_pos_right n hmult) (hsecs ▸ hle)

/-- The text is split inside its last character where that takes more bytes
than one. -/
theorem parseDuration_eq_none_iff (s : String) :
    parseDuration s = none ↔ ∃ c, s.toList.getLast? = some c ∧ 1 < c.utf8Size := by
  unfold parseDuration
  cases s.toList.getLast? with
  | none => simp
  | some c =>
    dsimp only
    by_cases hsize : 1 < c.utf8Size
    · rw [if_pos hsize]
      exact iff_of_true rfl ⟨c, rfl, hsize⟩
    · rw [if_neg hsize]
      refine iff_of_false (fun h => ?_) fun ⟨c', hc', hlarge⟩ => hsize (Option.some.inj hc' ▸ hlarge)
      split at h
      · simp at h
      split at h
      · simp at h
      split at h
      · simp at h
      split at h
      · simp at h
      · split at h <;> simp at h

end DomainData
end Logmon
