/-
# How deep a document may be nested

A value inside brackets is scanned by a call inside the call for the brackets,
and nothing limits how many: a document with more of them open than the stack
has room for ends the process instead of being refused (`brackets_overflow`).

Which documents do is said without the calls. `Scanner` reads a line's value
with the brackets that stand open in a list, and goes from place to place
without making anything of what it reads; the calls go where it goes
(`value_outcome`). So they stay within the stack as long as fewer brackets are
open before every value it comes to (`front_matter_ends`).

Key definitions: `Scanner`, `Scanner.next`, `Text.Shallow`, `LinesShallow`,
`Shallow`.
Key theorems: `value_outcome`, `value_answer`, `front_matter_ends`,
`brackets_overflow`.
-/
import Logmon.Cases.Cursor
import Logmon.Cases.FrontMatter
import Mathlib.Computability.StateTransition

namespace Logmon
namespace Cases

open Lib StateTransition

/-- Before a value, or inside the last open bracket. -/
inductive Place
  | value
  | inside
  deriving DecidableEq

/-- The brackets that stand open, last first, and where the scan is. -/
structure Scanner where
  opens : List Char
  place : Place
  index : ℕ
  deriving DecidableEq

namespace Scanner

/-- What closes a bracket. -/
def closing (c : Char) : Char := if c = '{' then '}' else ']'

/-- The next place, if the text can be read on. -/
def next (t : Text) (s : Scanner) : Option Scanner := do
  let i ← (t.skip Cur.isBlank s.index).toOption
  match s.place with
  | .value =>
    if t.peek i = some '"' then return ⟨s.opens, .inside, (← (t.quoted i).toOption).2⟩
    else if t.peek i = some '{' then return ⟨'{' :: s.opens, .inside, i + 1⟩
    else if t.peek i = some '[' then return ⟨'[' :: s.opens, .inside, i + 1⟩
    -- an item that would be empty
    else if s.opens.head? = some '[' ∧ t.peek i = some '}' then none
    else return ⟨s.opens, .inside, (← (t.token Cur.endsBare i).toOption).2⟩
  | .inside =>
    match s.opens with
    | [] => none
    | c :: opens =>
      let d ← t.peek i
      if d = closing c then return ⟨opens, .inside, i + 1⟩
      else if d = ',' then return ⟨c :: opens, .inside, i + 1⟩
      else if c = '{' then do
        let k ← (t.skip Cur.isBlank (← (t.key i).toOption).2).toOption
        if t.peek k = some ':' then return ⟨c :: opens, .value, k + 1⟩ else none
      else return ⟨c :: opens, .value, i⟩

/-- Before a value that this many brackets stand around. -/
def Deep (stack : ℕ) (s : Scanner) : Prop := s.place = .value ∧ stack ≤ s.opens.length

instance (stack : ℕ) (s : Scanner) : Decidable (s.Deep stack) := inferInstanceAs (Decidable (_ ∧ _))

/-- Past a value that no bracket stands around. -/
def AtEnd (s : Scanner) : Prop := s.place = .inside ∧ s.opens = []

/-- As far as the stack lasts. -/
def within (t : Text) (stack : ℕ) (s : Scanner) : Option Scanner := if s.Deep stack then none else s.next t

def start : Scanner := ⟨[], .value, 0⟩

end Scanner

/-- Fewer brackets than `stack` are open before every value of the text, as far
as it can be read. -/
def Text.Shallow (t : Text) (stack : ℕ) : Prop := ∀ s, Reaches (Scanner.next t) .start s → ¬ s.Deep stack

/-- The value of the line can be read to its end. -/
def Text.Closes (t : Text) : Prop := ∃ s, Reaches (Scanner.next t) .start s ∧ s.AtEnd

/-- Of the lines from an offset on, those up to the first that cannot be read
are shallow. -/
def LinesShallow (stack : ℕ) : ℕ → List (List Char) → Prop
  | _, [] => True
  | offset, line :: ls =>
    let trimmed := trim line
    if trimmed.isEmpty then LinesShallow stack (offset + (byteLen line + 1)) ls
    else match splitOnce ':' trimmed with
      | none => True
      | some (key, rest) =>
        Text.Shallow ⟨rest, offset + byteLen key + 1⟩ stack ∧
          (Text.Closes ⟨rest, offset + byteLen key + 1⟩ → LinesShallow stack (offset + (byteLen line + 1)) ls)

/-- The document's front matter nests no deeper than the stack has room for. -/
def Shallow (stack : ℕ) (doc : List Char) : Prop :=
  match cutFenced doc with
  | .error _ => True
  | .ok (block, base) => LinesShallow stack base (lines block)

namespace Text

open Scanner

variable {D : ReadEnv} {t : Text} {stack : ℕ}

/-! ### Both scans, step for step -/

/-- What a call's answer says of the scan from `s` on: it came past the value, or
to a value too deep, or no further. -/
inductive Outcome (t : Text) (stack : ℕ) (s : Scanner) (opens : List Char) : Except Halt (Value × ℕ) → Prop
  | ok {v : Value} {j : ℕ} (h : Reaches (within t stack) s ⟨opens, .inside, j⟩) : Outcome t stack s opens (.ok (v, j))
  | overflowed {s' : Scanner} (h : Reaches (within t stack) s s') (hdeep : s'.Deep stack) :
    Outcome t stack s opens (.error .overflowed)
  | refused {s' : Scanner} {e : ParseError} (h : Reaches (within t stack) s s') (hdeep : ¬ s'.Deep stack)
    (hlast : s'.next t = none) (hopen : ¬ s'.AtEnd) : Outcome t stack s opens (.error (.refused e))

theorem Outcome.of_reaches {s s' : Scanner} {opens : List Char} {x : Except Halt (Value × ℕ)}
    (h : Reaches (within t stack) s s') (hx : Outcome t stack s' opens x) : Outcome t stack s opens x := by
  cases hx with
  | ok h' => exact .ok (h.trans h')
  | overflowed h' hdeep => exact .overflowed (h.trans h') hdeep
  | refused h' hdeep hlast hopen => exact .refused (h.trans h') hdeep hlast hopen

theorem not_deep_inside {opens : List Char} {i : ℕ} : ¬ (Scanner.mk opens .inside i).Deep stack :=
  fun h => Place.noConfusion h.1

theorem within_inside {opens : List Char} {i : ℕ} :
    within t stack ⟨opens, .inside, i⟩ = Scanner.next t ⟨opens, .inside, i⟩ := if_neg not_deep_inside

theorem within_value {opens : List Char} {i : ℕ} (h : opens.length < stack) :
    within t stack ⟨opens, .value, i⟩ = Scanner.next t ⟨opens, .value, i⟩ :=
  if_neg fun hd => absurd hd.2 (by simpa using h)

/-- At a character that `p` does not hold of there is nothing to skip. -/
theorem skip_here {p : Char → Bool} {i : ℕ} {c : Char} (hpeek : t.peek i = some c) (hp : p c = false) :
    t.skip p i = .ok i := by
  obtain ⟨j, hskip, -, -, hcur⟩ := skip_eq p (lt_of_peek hpeek).le
  have hhere : (t.cur i).skipWhile p = t.cur i := by
    unfold Cur.skipWhile cur
    simp [drop_of_peek hpeek, hp]
  rw [hskip, cur_inj (hhere.symm.trans hcur)]

theorem skip_last {p : Char → Bool} {i j : ℕ} {c : Char} (hi : i ≤ t.chars.length) (hskip : t.skip p i = .ok j)
    (hpeek : t.peek j = some c) : p c = false := by
  obtain ⟨k, hskip', -, -, hcur⟩ := skip_eq p hi
  obtain rfl : k = j := Except.ok.inj (hskip'.symm.trans hskip)
  have hrest : (t.chars.drop i).dropWhile p = t.chars.drop k := congrArg Cur.rest hcur
  have hnot := List.head?_dropWhile_not p (t.chars.drop i)
  rw [hrest, drop_of_peek hpeek] at hnot
  simpa using hnot

section Collections

variable {value : ℕ → Except Halt (Value × ℕ)} {s₀ : Scanner} {opens : List Char} {start : ℕ}

/-- The scan from `s₀` on has come inside a collection, to an index of the text. -/
def ScanInside (t : Text) (stack : ℕ) (s₀ : Scanner) (opens : List Char) (i : ℕ) : Prop :=
  i ≤ t.chars.length ∧ Reaches (within t stack) s₀ ⟨opens, .inside, i⟩

/-- A value ends at or after where it began. -/
def Ends (t : Text) (value : ℕ → Except Halt (Value × ℕ)) : Prop :=
  ∀ i ≤ t.chars.length, ∀ v j, value i = .ok (v, j) → i ≤ j ∧ j ≤ t.chars.length

theorem mapRound_outcome (hends : Ends t value)
    (hvalue : ∀ i ≤ t.chars.length, Outcome t stack ⟨'{' :: opens, .value, i⟩ ('{' :: opens) (value i))
    (s : List (String × Value) × ℕ) (hs : ScanInside t stack s₀ ('{' :: opens) s.2) :
    RoundPost (fun s => ScanInside t stack s₀ ('{' :: opens) s.2) (fun s => t.chars.length - s.2)
      (Outcome t stack s₀ opens) s (t.mapRound D value start s) := by
  obtain ⟨m, i⟩ := s
  obtain ⟨hi, hreach⟩ := hs
  dsimp only at hi hreach
  obtain ⟨j, hskip, hij, hj, -⟩ := skip_eq Cur.isBlank hi
  have hopen : ¬ (Scanner.mk ('{' :: opens) .inside i).AtEnd := fun h => List.cons_ne_nil _ _ h.2
  -- the scan is at the same place, and goes on as the round does
  have hgo : ∀ s', Scanner.next t ⟨'{' :: opens, .inside, i⟩ = some s' → Reaches (within t stack) s₀ s' :=
    fun s' h => hreach.tail (within_inside.trans h)
  unfold mapRound
  unfold Scanner.next at hgo
  simp only [hskip, bind, Except.bind, Except.toOption, Option.bind] at hgo ⊢
  cases hpeek : t.peek j with
  | none =>
    exact .refused hreach not_deep_inside (by simp [Scanner.next, hskip, hpeek, Except.toOption]) hopen
  | some c =>
    have hlt := lt_of_peek hpeek
    have hless : t.chars.length - (j + 1) < t.chars.length - i := by omega
    simp only [hpeek, Scanner.closing, if_true] at hgo ⊢
    by_cases hclose : c = '}'
    · rw [if_pos hclose] at hgo ⊢
      exact .ok (hgo _ rfl)
    rw [if_neg hclose] at hgo ⊢
    by_cases hcomma : c = ','
    · rw [if_pos hcomma] at hgo ⊢
      exact ⟨⟨hlt, hgo _ rfl⟩, hless⟩
    rw [if_neg hcomma] at hgo ⊢
    have hkey := key_agrees hj
    generalize (t.cur j).key = q at hkey
    generalize hk : t.key j = x at hgo hkey ⊢
    cases hkey with
    | refused e =>
      exact .refused hreach not_deep_inside
        (by simp [Scanner.next, Scanner.closing, hskip, hpeek, hclose, hcomma, hk, Except.toOption]) hopen
    | @ok key k hjk hk' =>
      obtain ⟨n, hskip', hkn, hn, -⟩ := skip_eq Cur.isBlank hk'
      simp only [hskip', pure] at hgo ⊢
      by_cases hcolon : t.peek n = some ':'
      · have hltn := lt_of_peek hcolon
        simp only [hcolon, ne_eq, not_true_eq_false, if_false, if_true] at hgo ⊢
        have hout := (hvalue (n + 1) hltn).of_reaches (hgo _ rfl)
        have hbound := hends (n + 1) hltn
        generalize value (n + 1) = y at hout hbound ⊢
        cases hout with
        | @ok v q h =>
          have hle := hbound _ _ rfl
          have hless' : t.chars.length - q < t.chars.length - i := by omega
          exact ⟨⟨hle.2, h⟩, hless'⟩
        | overflowed h hdeep => exact .overflowed h hdeep
        | refused h hdeep hlast hopen => exact .refused h hdeep hlast hopen
      · rw [if_pos hcolon]
        exact .refused hreach not_deep_inside (by
          simp [Scanner.next, Scanner.closing, hskip, hpeek, hclose, hcomma, hk, hskip', hcolon, Except.toOption]) hopen

/-- An item of a sequence is not read where it would be empty; elsewhere it takes
a character. -/
structure Items (t : Text) (stack : ℕ) (opens : List Char) (value : ℕ → Except Halt (Value × ℕ)) : Prop where
  empty : ∀ i, t.peek i = some '}' → opens.length + 1 < stack → ∃ v, value i = .ok (v, i)
  deep : ∀ i, stack ≤ opens.length + 1 → value i = .error .overflowed
  takes : ∀ i c, t.peek i = some c → Cur.isBlank c = false → Cur.endsBare c = false →
    Outcome t stack ⟨'[' :: opens, .value, i⟩ ('[' :: opens) (value i) ∧ ∀ v j, value i = .ok (v, j) → i < j

theorem seqRound_outcome (hends : Ends t value) (hvalue : Items t stack opens value) (s : List Value × ℕ)
    (hs : ScanInside t stack s₀ ('[' :: opens) s.2) :
    RoundPost (fun s => ScanInside t stack s₀ ('[' :: opens) s.2) (fun s => t.chars.length - s.2)
      (Outcome t stack s₀ opens) s (t.seqRound D value start s) := by
  obtain ⟨items, i⟩ := s
  obtain ⟨hi, hreach⟩ := hs
  dsimp only at hi hreach
  obtain ⟨j, hskip, hij, hj, hcur⟩ := skip_eq Cur.isBlank hi
  have hopen : ¬ (Scanner.mk ('[' :: opens) .inside i).AtEnd := fun h => List.cons_ne_nil _ _ h.2
  have hgo : ∀ s', Scanner.next t ⟨'[' :: opens, .inside, i⟩ = some s' → Reaches (within t stack) s₀ s' :=
    fun s' h => hreach.tail (within_inside.trans h)
  unfold seqRound
  unfold Scanner.next at hgo
  simp only [hskip, bind, Except.bind, Except.toOption, Option.bind] at hgo ⊢
  cases hpeek : t.peek j with
  | none => exact .refused hreach not_deep_inside (by simp [Scanner.next, hskip, hpeek, Except.toOption]) hopen
  | some c =>
    have hlt := lt_of_peek hpeek
    have hless : t.chars.length - (j + 1) < t.chars.length - i := by omega
    have hblank : Cur.isBlank c = false := skip_last hi hskip hpeek
    have hbracket : ¬ '[' = '{' := by decide
    simp only [hpeek, Scanner.closing, if_neg hbracket] at hgo ⊢
    by_cases hclose : c = ']'
    · rw [if_pos hclose] at hgo ⊢
      exact .ok (hgo _ rfl)
    rw [if_neg hclose] at hgo ⊢
    by_cases hcomma : c = ','
    · rw [if_pos hcomma] at hgo ⊢
      exact ⟨⟨hlt, hgo _ rfl⟩, hless⟩
    rw [if_neg hcomma] at hgo ⊢
    have hitem := hgo _ rfl
    by_cases hbrace : c = '}'
    · -- the guard, or no room for the call
      subst hbrace
      rcases Nat.lt_or_ge (opens.length + 1) stack with hroom | hfull
      · obtain ⟨v, hv⟩ := hvalue.empty j hpeek hroom
        simp only [hv, if_true]
        exact .refused hitem (fun hd => absurd hd.2 (by simpa using hroom))
          (by simp [Scanner.next, skip_here hpeek hblank, hpeek, Except.toOption]) (fun h => Place.noConfusion h.1)
      · rw [hvalue.deep j hfull]
        exact .overflowed hitem ⟨rfl, by simpa using hfull⟩
    · have hend : Cur.endsBare c = false := by simp [Cur.endsBare, hclose, hcomma, hbrace]
      obtain ⟨hout, hless'⟩ := hvalue.takes j c hpeek hblank hend
      have hbound := hends j hj
      replace hout := hout.of_reaches hitem
      generalize value j = y at hout hbound hless' ⊢
      cases hout with
      | @ok v q h =>
        have hle := hbound _ _ rfl
        have hlt' := hless' _ _ rfl
        have hless'' : t.chars.length - q < t.chars.length - i := by omega
        simp only [if_neg hlt'.ne', pure]
        exact ⟨⟨hle.2, h⟩, hless''⟩
      | overflowed h hdeep => exact .overflowed h hdeep
      | refused h hdeep hlast hopen => exact .refused h hdeep hlast hopen

end Collections

/-! ### A value -/

theorem ends_value (n : ℕ) : Ends t (t.value D n) := by
  intro i hi v j h
  rcases (progress D t n).value i hi with ⟨hx, -⟩ | ⟨e, hx⟩ | ⟨v', j', hx, hbound⟩
  · rw [h] at hx
    cases hx
  · rw [h] at hx
    cases hx
  · rw [h] at hx
    cases hx
    exact hbound

theorem value_empty {n i : ℕ} (h : t.peek i = some '}') : t.value D (n + 1) i = .ok (.bare "", i) := by
  have hskip : t.skip Cur.isBlank i = .ok i := skip_here h (by decide)
  have hend : t.skip (fun c => !Cur.endsBare c) i = .ok i := skip_here h (by decide)
  have hslice : t.slice i i = .ok [] := by
    rw [slice_eq le_rfl (lt_of_peek h).le, Nat.sub_self, List.take_zero]
  have htoken : t.token Cur.endsBare i = .ok ("", i) := by
    unfold token
    simp only [hend, hslice, bind, Except.bind, pure, Except.pure]
    rfl
  unfold value
  simp [hskip, h, htoken, bind, Except.bind, pure, Except.pure]

/-- A value that starts with a character takes it. -/
theorem lt_of_value {n i j : ℕ} {v : Value} {c : Char} (hpeek : t.peek i = some c) (hblank : Cur.isBlank c = false)
    (hend : Cur.endsBare c = false) (h : t.value D n i = .ok (v, j)) : i < j := by
  cases n with
  | zero => cases h
  | succ n =>
    have hlt := lt_of_peek hpeek
    unfold value at h
    simp only [skip_here hpeek hblank, bind, Except.bind] at h
    by_cases hquote : t.peek i = some '"'
    · have hagrees := quoted_agrees hquote
      generalize (t.cur i).quoted = q at hagrees
      rw [if_pos hquote] at h
      generalize t.quoted i = x at h hagrees
      cases hagrees with
      | refused e => cases h
      | ok s hij =>
        cases h
        exact hij
    rw [if_neg hquote] at h
    by_cases hbrace : t.peek i = some '{'
    · obtain ⟨target, htarget, -⟩ := (Cur.answers_all (D := D) _).2.1 (t.offset i) [] (t.cur (i + 1)) le_rfl
      have hrun := run_post _ Prod.snd _ (mapRound_post (values_from n (i + 1))) (s := ([], i + 1))
        ⟨le_rfl, hlt, _, htarget⟩
      rw [if_pos hbrace] at h
      rw [h] at hrun
      rcases hrun with ⟨hx, -⟩ | hagrees
      · cases hx
      · cases hagrees with
        | ok v hij => exact hij
    rw [if_neg hbrace] at h
    by_cases hbracket : t.peek i = some '['
    · obtain ⟨target, htarget, -⟩ := (Cur.answers_all (D := D) _).2.2 (t.offset i) [] (t.cur (i + 1)) le_rfl
      have hrun := run_post _ Prod.snd _ (seqRound_post (values_from n (i + 1))) (s := ([], i + 1))
        ⟨le_rfl, hlt, _, htarget⟩
      rw [if_pos hbracket] at h
      rw [h] at hrun
      rcases hrun with ⟨hx, -⟩ | hagrees
      · cases hx
      · cases hagrees with
        | ok v hij => exact hij
    rw [if_neg hbracket] at h
    obtain ⟨k, hskip, hik, hk, -⟩ := skip_eq (fun c => !Cur.endsBare c) hlt.le
    unfold token at h
    simp only [hskip, slice_eq hik hk, bind, Except.bind, pure, Except.pure] at h
    obtain rfl : k = j := congrArg Prod.snd (Except.ok.inj h)
    -- the token would end at its first character
    rcases hik.eq_or_lt with rfl | hlt'
    · have hstop := skip_last hlt.le hskip hpeek
      simp [hend] at hstop
    · exact hlt'

/-- **The calls go where the scan goes**, as long as there is room for them. -/
theorem value_outcome : ∀ {n i : ℕ} {opens : List Char}, opens.length + n = stack → i ≤ t.chars.length →
    (opens.head? = some '[' → ∀ j, t.skip Cur.isBlank i = .ok j → t.peek j ≠ some '}') →
    Outcome t stack ⟨opens, .value, i⟩ opens (t.value D n i)
  | 0, i, opens, hlen, _, _ => .overflowed .refl ⟨rfl, by simpa using hlen.ge⟩
  | n + 1, i, opens, hlen, hi, hitem => by
    obtain ⟨j, hskip, hij, hj, -⟩ := skip_eq Cur.isBlank hi
    have hroom : opens.length < stack := by omega
    have hnot : ¬ (Scanner.mk opens .value i).Deep stack := fun h => absurd h.2 (by simpa using hroom)
    have hopen : ¬ (Scanner.mk opens .value i).AtEnd := fun h => Place.noConfusion h.1
    have hgo : ∀ s', Scanner.next t ⟨opens, .value, i⟩ = some s' → Reaches (within t stack) ⟨opens, .value, i⟩ s' :=
      fun s' h => .single ((within_value hroom).trans h)
    unfold value
    unfold Scanner.next at hgo
    simp only [hskip, bind, Except.bind, Except.toOption, Option.bind] at hgo ⊢
    by_cases hquote : t.peek j = some '"'
    · rw [if_pos hquote] at hgo ⊢
      have hagrees := quoted_agrees hquote
      generalize (t.cur j).quoted = q at hagrees
      generalize hq : t.quoted j = x at hgo hagrees ⊢
      cases hagrees with
      | refused e => exact .refused .refl hnot (by simp [Scanner.next, hskip, hquote, hq, Except.toOption]) hopen
      | ok s => exact .ok (hgo _ rfl)
    rw [if_neg hquote] at hgo ⊢
    by_cases hbrace : t.peek j = some '{'
    · rw [if_pos hbrace] at hgo ⊢
      refine run_post _ Prod.snd _ (mapRound_outcome (ends_value n) fun k hk => ?_) ⟨lt_of_peek hbrace, hgo _ rfl⟩
      exact value_outcome (by simp only [List.length_cons]; omega) hk fun h => absurd (Option.some.inj h) (by decide)
    rw [if_neg hbrace] at hgo ⊢
    by_cases hbracket : t.peek j = some '['
    · rw [if_pos hbracket] at hgo ⊢
      have hitems : Items t stack opens (t.value D n) := by
        refine ⟨fun k hk hfull => ?_, fun k hfull => ?_,
          fun k c hk hblank hend => ⟨?_, fun v q => lt_of_value hk hblank hend⟩⟩
        · obtain ⟨n', rfl⟩ : ∃ n', n = n' + 1 := ⟨n - 1, by omega⟩
          exact ⟨_, value_empty hk⟩
        · obtain rfl : n = 0 := by omega
          rfl
        · refine value_outcome (by simp only [List.length_cons]; omega) (lt_of_peek hk).le fun _ q hq => ?_
          obtain rfl : k = q := Except.ok.inj ((skip_here hk hblank).symm.trans hq)
          rw [hk]
          rintro ⟨rfl⟩
          exact absurd hend (by decide)
      exact run_post _ Prod.snd _ (seqRound_outcome (ends_value n) hitems) ⟨lt_of_peek hbracket, hgo _ rfl⟩
    rw [if_neg hbracket] at hgo ⊢
    have hguard : ¬ (opens.head? = some '[' ∧ t.peek j = some '}') := fun h => hitem h.1 j hskip h.2
    rw [if_neg hguard] at hgo
    have hagrees := token_agrees Cur.endsBare hj
    generalize (t.cur j).token Cur.endsBare = q at hagrees
    generalize t.token Cur.endsBare j = x at hgo hagrees ⊢
    cases hagrees with
    | ok s => exact .ok (hgo _ rfl)

/-! ### Where the scan stops -/

theorem reaches_next {a b : Scanner} (h : Reaches (within t stack) a b) : Reaches (Scanner.next t) a b := by
  have hstep : ∀ s s', s' ∈ within t stack s → s' ∈ Scanner.next t s := by
    intro s s' hs
    unfold within at hs
    split_ifs at hs
    · cases hs
    · exact hs
  exact Relation.ReflTransGen.mono hstep _ _ h

/-- What the text leads to is reached within the stack, or something too deep is. -/
theorem reaches_within {a b : Scanner} (h : Reaches (Scanner.next t) a b) :
    Reaches (within t stack) a b ∨ ∃ s, Reaches (within t stack) a s ∧ s.Deep stack := by
  induction h with
  | refl => exact .inl .refl
  | @tail b c _ hbc ih =>
    rcases ih with h | h
    · by_cases hdeep : b.Deep stack
      · exact .inr ⟨b, h, hdeep⟩
      · exact .inl (h.tail ((if_neg hdeep).trans hbc))
    · exact .inr h

/-- The scan stops in one place. -/
theorem stop_unique {f : Scanner → Option Scanner} {a b c : Scanner} (hb : Reaches f a b) (hfb : f b = none)
    (hc : Reaches f a c) (hfc : f c = none) : b = c :=
  Part.mem_unique (mem_eval.mpr ⟨hb, hfb⟩) (mem_eval.mpr ⟨hc, hfc⟩)

theorem AtEnd.next {s : Scanner} (h : s.AtEnd) : s.next t = none := by
  obtain ⟨opens, place, i⟩ := s
  obtain ⟨rfl, rfl⟩ := h
  unfold Scanner.next
  cases t.skip Cur.isBlank i <;> rfl

/-- A scan that stops within the stack comes to nothing too deep. -/
theorem shallow_of_stop {s : Scanner} (h : Reaches (within t stack) .start s) (hlast : s.next t = none)
    (hdeep : ¬ s.Deep stack) : t.Shallow stack := by
  have hstop : within t stack s = none := (if_neg hdeep).trans hlast
  intro s' hs' hdeep'
  obtain ⟨d, hd, hdd⟩ : ∃ d, Reaches (within t stack) .start d ∧ d.Deep stack :=
    (reaches_within hs').elim (fun h => ⟨s', h, hdeep'⟩) id
  exact hdeep (stop_unique hd (if_pos hdd) h hstop ▸ hdd)

/-- How a line's value is answered, by the scan. -/
inductive Answer (t : Text) (stack : ℕ) : Except Halt (Value × ℕ) → Prop
  | read (hshallow : t.Shallow stack) (hcloses : t.Closes) (v : Value) (j : ℕ) : Answer t stack (.ok (v, j))
  | refused (hshallow : t.Shallow stack) (hcloses : ¬ t.Closes) (e : ParseError) : Answer t stack (.error (.refused e))
  | overflowed (hdeep : ¬ t.Shallow stack) : Answer t stack (.error .overflowed)

theorem value_answer (D : ReadEnv) (t : Text) (stack : ℕ) : Answer t stack (t.value D stack 0) := by
  have hout : Outcome t stack .start [] (t.value D stack 0) :=
    value_outcome (Nat.zero_add stack) (Nat.zero_le _) fun h => by cases h
  generalize t.value D stack 0 = x at hout
  cases hout with
  | ok h => exact .read (shallow_of_stop h (AtEnd.next ⟨rfl, rfl⟩) not_deep_inside) ⟨_, reaches_next h, rfl, rfl⟩ _ _
  | overflowed h hdeep => exact .overflowed fun hshallow => hshallow _ (reaches_next h) hdeep
  | refused h hdeep hlast hopen =>
    refine .refused (shallow_of_stop h hlast hdeep) ?_ _
    rintro ⟨s, hs, hend⟩
    exact hopen (stop_unique hs (AtEnd.next hend) (reaches_next h) hlast ▸ hend)

end Text

/-! ### A document -/

section Document

variable (D : ReadEnv) (stack : ℕ)

/-- The lines overflow the stack exactly where one that is come to is too deep. -/
theorem scanLines_overflows_iff : ∀ (ls : List (List Char)) (n offset : ℕ) (top : List (String × Value)),
    scanLines D stack n offset top ls = .error .overflowed ↔ ¬ LinesShallow stack offset ls
  | [], _, _, _ => by
    unfold scanLines LinesShallow
    simp
  | line :: ls, n, offset, top => by
    unfold scanLines LinesShallow
    simp only
    by_cases hempty : (trim line).isEmpty = true
    · rw [if_pos hempty, if_pos hempty]
      exact scanLines_overflows_iff ls _ _ _
    rw [if_neg hempty, if_neg hempty]
    cases splitOnce ':' (trim line) with
    | none => simp
    | some p =>
      obtain ⟨key, rest⟩ := p
      simp only
      have hanswer := Text.value_answer D ⟨rest, offset + byteLen key + 1⟩ stack
      generalize Text.value D _ stack 0 = x at hanswer ⊢
      cases hanswer with
      | read hshallow hcloses v j =>
        rw [scanLines_overflows_iff ls]
        exact not_congr ⟨fun h => ⟨hshallow, fun _ => h⟩, fun h => h.2 hcloses⟩
      | refused hshallow hcloses e => exact iff_of_false (by simp) (not_not.mpr ⟨hshallow, fun h => absurd h hcloses⟩)
      | overflowed hdeep => exact iff_of_true rfl fun h => hdeep h.1

theorem scanFrontMatter_overflows_iff (doc : List Char) :
    scanFrontMatter D stack doc = .error .overflowed ↔ ¬ Shallow stack doc := by
  unfold scanFrontMatter Shallow
  rw [cutFenced_eq]
  cases fenced doc with
  | error e => simp [Except.mapError]
  | ok p =>
    obtain ⟨block, base⟩ := p
    have hlines := scanLines_overflows_iff D stack (lines block) 0 base []
    simp only [Except.mapError]
    generalize scanLines D stack 0 base [] (lines block) = x at hlines ⊢
    cases x with
    | error h =>
      rw [← hlines]
      exact ⟨fun hx => congrArg Except.error (Except.error.inj hx),
        fun hx => congrArg Except.error (Except.error.inj hx)⟩
    | ok top =>
      refine iff_of_false (fun h => ?_) (hlines.not.mp fun h => by cases h)
      simp only at h
      split at h <;> cases h

/-- **A document is read or refused exactly where it is shallow**, and then as
the parser has it; a deeper one ends the process. Every loop's round goes on
further in the text or is the last, and there are no more lines than characters. -/
theorem front_matter_ends (doc : List Char) :
    ((∃ r : Except ParseError FrontMatter, scanFrontMatter D stack doc = r.mapError .refused) ↔ Shallow stack doc) ∧
    (Shallow stack doc → ∃ r, parseFrontMatter D doc = some r ∧ scanFrontMatter D stack doc = r.mapError .refused) ∧
    (¬ Shallow stack doc → scanFrontMatter D stack doc = .error .overflowed) ∧
    (∀ t : Text, t.Progress D stack) ∧ ∀ block : List Char, (lines block).length ≤ block.length := by
  obtain ⟨r, hr⟩ := parseFrontMatter_isSome D doc
  have hread : Shallow stack doc → scanFrontMatter D stack doc = r.mapError .refused := fun h =>
    (scanFrontMatter_cases D stack hr).resolve_left fun hover => (scanFrontMatter_overflows_iff D stack doc).mp hover h
  refine ⟨⟨?_, fun h => ⟨r, hread h⟩⟩, fun h => ⟨r, hr, hread h⟩, (scanFrontMatter_overflows_iff D stack doc).mpr,
    fun t => Text.progress D t stack, length_lines_le⟩
  rintro ⟨r', hr'⟩
  by_contra hdeep
  rw [(scanFrontMatter_overflows_iff D stack doc).mpr hdeep] at hr'
  cases r' <;> cases hr'

/-- A key whose value is `n` brackets that nothing closes. -/
def nestedLine (n : ℕ) : List Char := "x: ".toList ++ List.replicate n '['

def nestedDocument (n : ℕ) : List Char := "---\n".toList ++ nestedLine n ++ "\n---\n".toList

/-- The text of that value, a blank before it. -/
def nestedText (base n : ℕ) : Text := ⟨' ' :: List.replicate n '[', base⟩

theorem peek_nested (base : ℕ) {n i : ℕ} (h : i < n) : (nestedText base n).peek (i + 1) = some '[' := by
  simp [nestedText, Text.peek, h]

theorem skip_nested {base n : ℕ} (h : 0 < n) : (nestedText base n).skip Cur.isBlank 0 = .ok 1 := by
  obtain ⟨j, hskip, -, -, hcur⟩ := Text.skip_eq (t := nestedText base n) Cur.isBlank (Nat.zero_le _)
  obtain ⟨m, rfl⟩ : ∃ m, n = m + 1 := ⟨n - 1, by omega⟩
  have hone : ((nestedText base (m + 1)).cur 0).skipWhile Cur.isBlank = (nestedText base (m + 1)).cur 1 := by
    simp [nestedText, Cur.skipWhile, Text.cur, Cur.isBlank, List.replicate_succ]
  rw [hskip, ← Text.cur_inj (hone.symm.trans hcur)]

/-- Every bracket but the last has a value in it. -/
theorem reaches_nested (base : ℕ) {n : ℕ} : ∀ {i : ℕ}, i < n → ∃ k,
    Reaches (Scanner.next (nestedText base n)) .start ⟨List.replicate i '[', .value, k⟩ ∧
    (nestedText base n).skip Cur.isBlank k = .ok (i + 1)
  | 0, h => ⟨0, .refl, skip_nested h⟩
  | i + 1, h => by
    obtain ⟨k, hreach, hskip⟩ := reaches_nested base (Nat.lt_of_succ_lt h)
    have hpeek := peek_nested base (Nat.lt_of_succ_lt h)
    have hhere : (nestedText base n).skip Cur.isBlank (i + 2) = .ok (i + 2) :=
      Text.skip_here (peek_nested base h) (by decide)
    have hopen : Scanner.next (nestedText base n) ⟨List.replicate i '[', .value, k⟩ =
        some ⟨List.replicate (i + 1) '[', .inside, i + 2⟩ := by
      simp [Scanner.next, hskip, hpeek, Except.toOption, List.replicate_succ]
    have hitem : Scanner.next (nestedText base n) ⟨List.replicate (i + 1) '[', .inside, i + 2⟩ =
        some ⟨List.replicate (i + 1) '[', .value, i + 2⟩ := by
      simp [Scanner.next, Scanner.closing, hhere, peek_nested base h, Except.toOption, List.replicate_succ]
    exact ⟨i + 2, (hreach.tail hopen).tail hitem, hhere⟩

theorem nested_not_shallow {base n : ℕ} (h : stack < n) : ¬ (nestedText base n).Shallow stack := by
  obtain ⟨k, hreach, -⟩ := reaches_nested base h
  exact fun hshallow => hshallow _ hreach ⟨rfl, (List.length_replicate ..).ge⟩

theorem oneLine_nested (n : ℕ) : OneLine (nestedLine n) := by
  have hnot : ∀ c, c ∉ "x: ".toList → c ≠ '[' → c ∉ nestedLine n := by
    intro c hx hb hm
    rcases List.mem_append.mp hm with hm | hm
    · exact hx hm
    · exact hb (List.eq_of_mem_replicate hm)
  exact ⟨hnot _ (by decide) (by decide), hnot _ (by decide) (by decide)⟩

theorem trim_nested {n : ℕ} (h : 0 < n) : trim (nestedLine n) = nestedLine n := by
  obtain ⟨m, rfl⟩ : ∃ m, n = m + 1 := ⟨n - 1, by omega⟩
  have hline : nestedLine (m + 1) = 'x' :: ((": ".toList ++ List.replicate m '[') ++ ['[']) := by
    rw [nestedLine, List.replicate_succ', ← List.append_assoc]
    rfl
  rw [hline]
  exact trim_eq_self (trimmed_brackets (by decide) (by decide) _)

theorem fenced_nested (n : ℕ) : fenced (nestedDocument n) = .ok (nestedLine n, 4) := by
  have hpre : "---\n".toList.isPrefixOf (nestedDocument n) = true := rfl
  have hdrop : (nestedDocument n).drop 4 = nestedLine n ++ "\n---\n".toList := rfl
  have hbefore : textBefore "\n---".toList (nestedLine n ++ "\n---\n".toList) = some (nestedLine n) := by
    have hrest : textBefore "\n---".toList "\n---\n".toList = some [] := by decide
    have happend : textBefore "\n---".toList (nestedLine n ++ "\n---\n".toList) =
        (textBefore "\n---".toList "\n---\n".toList).map (nestedLine n ++ ·) :=
      textBefore_append (oneLine_nested n).1
    rw [happend, hrest]
    simp
  unfold fenced
  rw [if_pos hpre, hdrop, hbefore]

/-- **A document is too deep for the stack with a bracket for every call and one more.** -/
theorem brackets_overflow {n : ℕ} (h : stack < n) :
    scanFrontMatter D stack (nestedDocument n) = .error .overflowed := by
  have hpos : 0 < n := Nat.zero_lt_of_lt h
  have hsplit : splitOnce ':' (nestedLine n) = some (['x'], ' ' :: List.replicate n '[') :=
    splitOnce_append (c := ':') (l := ['x']) _ (by decide)
  refine (scanFrontMatter_overflows_iff D stack _).mpr ?_
  unfold Shallow
  rw [cutFenced_eq, fenced_nested]
  simp only [Except.mapError]
  rw [lines_single (oneLine_nested n) (by simp [nestedLine])]
  unfold LinesShallow
  simp only [trim_nested hpos, hsplit]
  rw [if_neg (by simp [nestedLine])]
  exact fun hlines => nested_not_shallow stack h hlines.1

/-- 200000 brackets, on a stack of 2 MiB with 16 bytes for a call. -/
theorem brackets_end_the_process :
    scanFrontMatter sampleEnv (2 * 1024 * 1024 / 16) (nestedDocument 200000) = .error .overflowed ∧
      ¬ ∃ r : Except ParseError FrontMatter,
        scanFrontMatter sampleEnv (2 * 1024 * 1024 / 16) (nestedDocument 200000) = r.mapError .refused := by
  have hover := brackets_overflow sampleEnv (2 * 1024 * 1024 / 16) (n := 200000) (by norm_num)
  refine ⟨hover, ?_⟩
  rintro ⟨r, hr⟩
  rw [hover] at hr
  cases r <;> cases hr

end Document

end Cases
end Logmon
