/-
# The scanner by its indices

`cases/read.rs` scans a line's value as a vector of characters under an index:
the cursor's loops move the index on, and a token is a slice between two of
them. Here they are run as the loops they are, with what would end the process
in the open: a slice outside the text, or one inside a character, panics, and
so does a quoted scalar that starts at no quote; a value inside a value is a
call inside a call, and the stack has room for so many.

The scanner of what is left of the line (`Cur.value`) is what this one does
while the stack lasts (`value_agrees`), so it never panics; a loop's every
round that goes on leaves the index further on (`Progress`), so it is never
left unfinished.

Key definitions: `Halt`, `Text`, `Text.value`, `scanFrontMatter`, `Agrees`,
`Progress`.
Key theorems: `value_agrees`, `progress`, `scanFrontMatter_cases`.
-/
import Logmon.Cases.Read
import Logmon.Lib.Loop

namespace Logmon
namespace Cases

open Lib

/-- How a scan stops short: the document is refused, or the process panics, or
is aborted when its stack is used up. `unfinished` is no end of the code's: a
bound on rounds was too small. -/
inductive Halt
  | refused (e : ParseError)
  | panicked
  | overflowed
  | unfinished
  deriving DecidableEq

/-- The characters of a value, and the offset of the first in the document. -/
structure Text where
  chars : List Char
  base : ℕ

namespace Text

variable (D : ReadEnv) (t : Text)

def peek (i : ℕ) : Option Char := t.chars[i]?

/-- The offset of an index in the document. -/
def offset (i : ℕ) : ℕ := t.base + i

/-- `&chars[lo..hi]`. -/
def slice (lo hi : ℕ) : Except Halt (List Char) :=
  if lo ≤ hi ∧ hi ≤ t.chars.length then .ok ((t.chars.take hi).drop lo) else .error .panicked

/-- The loops of the cursor, with rounds for every character. -/
def run {σ α : Type} (round : σ → Except Halt (Round σ α)) (s : σ) : Except Halt α :=
  loop .unfinished round (t.chars.length + 1) s

def skipRound (p : Char → Bool) (i : ℕ) : Except Halt (Round ℕ ℕ) :=
  match t.peek i with
  | none => .ok (.done i)
  | some c => if p c then .ok (.again (i + 1)) else .ok (.done i)

/-- Past the characters `p` holds of. -/
def skip (p : Char → Bool) (i : ℕ) : Except Halt ℕ := t.run (t.skipRound p) i

def quotedRound (start : ℕ) : List Char × ℕ → Except Halt (Round (List Char × ℕ) (List Char × ℕ))
  | (raw, i) => match t.peek i with
    | none => .error (.refused (.unterminatedString start))
    | some c =>
      if c = '"' then .ok (.done (raw, i + 1))
      else if c = '\\' then match t.peek (i + 1) with
        | none => .error (.refused (.unterminatedString start))
        | some d => .ok (.again (raw ++ ['\\', d], i + 2))
      else .ok (.again (raw ++ [c], i + 1))

/-- A quoted scalar; the assertion at its start panics. -/
def quoted (i : ℕ) : Except Halt (String × ℕ) :=
  if t.peek i = some '"' then do
    let (raw, j) ← t.run (t.quotedRound (t.offset i)) ([], i + 1)
    match unescape (t.offset i + 1) 0 raw with
    | .error e => .error (.refused e)
    | .ok s => .ok (String.ofList s, j)
  else .error .panicked

/-- The text up to a character that ends it, trimmed. -/
def token (ends : Char → Bool) (i : ℕ) : Except Halt (String × ℕ) := do
  let j ← t.skip (fun c => !ends c) i
  let raw ← t.slice i j
  return (String.ofList (trim raw), j)

/-- The key of a flow mapping's entry. -/
def key (i : ℕ) : Except Halt (String × ℕ) :=
  if t.peek i = some '"' then t.quoted i else t.token Cur.endsKey i

/-- A round of a flow mapping that opened at `start`. -/
def mapRound (value : ℕ → Except Halt (Value × ℕ)) (start : ℕ) :
    List (String × Value) × ℕ → Except Halt (Round (List (String × Value) × ℕ) (Value × ℕ))
  | (m, i) => do
    let i ← t.skip Cur.isBlank i
    match t.peek i with
    | none => .error (.refused (.badFlow start "mapping (never closed)"))
    | some c =>
      if c = '}' then .ok (.done (.map m, i + 1))
      else if c = ',' then .ok (.again (m, i + 1))
      else do
        let (key, i) ← t.key i
        let i ← t.skip Cur.isBlank i
        if t.peek i ≠ some ':' then
          .error (.refused (.badFlow (t.offset i) ("mapping (no `:` after key " ++ D.debugStr key ++ ")")))
        else do
          let (v, i) ← value (i + 1)
          return .again (insertKey key v m, i)

/-- A round of a flow sequence that opened at `start`, with the guard on an
item that consumes nothing. -/
def seqRound (value : ℕ → Except Halt (Value × ℕ)) (start : ℕ) :
    List Value × ℕ → Except Halt (Round (List Value × ℕ) (Value × ℕ))
  | (items, i) => do
    let i ← t.skip Cur.isBlank i
    match t.peek i with
    | none => .error (.refused (.badFlow start "sequence (never closed)"))
    | some c =>
      if c = ']' then .ok (.done (.seq items, i + 1))
      else if c = ',' then .ok (.again (items, i + 1))
      else do
        let (v, j) ← value i
        if j = i then
          .error (.refused (.badFlow (t.offset j)
            ("sequence (nothing consumable at " ++ D.debugChar ((t.peek j).getD ' ') ++ ")")))
        else return .again (items ++ [v], j)

/-- A value; the stack has room for `stack` calls, this one among them. -/
def value : ℕ → ℕ → Except Halt (Value × ℕ)
  | 0, _ => .error .overflowed
  | stack + 1, i => do
    let i ← t.skip Cur.isBlank i
    if t.peek i = some '"' then do
      let (s, j) ← t.quoted i
      return (.str s, j)
    else if t.peek i = some '{' then t.run (t.mapRound D (value stack) (t.offset i)) ([], i + 1)
    else if t.peek i = some '[' then t.run (t.seqRound D (value stack) (t.offset i)) ([], i + 1)
    else do
      let (s, j) ← t.token Cur.endsBare i
      return (.bare s, j)

/-! ### What is left at an index -/

variable {t}

/-- The place an index stands for. -/
def cur (t : Text) (i : ℕ) : Cur := ⟨t.chars.drop i, t.base + i⟩

theorem peek_eq (i : ℕ) : t.peek i = (t.cur i).peek := by
  unfold peek Cur.peek cur
  rw [List.head?_drop]

theorem advance_cur (i : ℕ) : (t.cur i).advance = t.cur (i + 1) := by
  unfold Cur.advance cur
  rw [List.tail_drop, Nat.add_assoc]

theorem lt_of_peek {i : ℕ} {c : Char} (h : t.peek i = some c) : i < t.chars.length :=
  (List.getElem?_eq_some_iff.mp h).1

theorem drop_of_peek {i : ℕ} {c : Char} (h : t.peek i = some c) : t.chars.drop i = c :: t.chars.drop (i + 1) := by
  obtain ⟨hlt, rfl⟩ := List.getElem?_eq_some_iff.mp h
  exact List.drop_eq_getElem_cons hlt

theorem drop_of_peek_none {i : ℕ} (h : t.peek i = none) : t.chars.drop i = [] :=
  List.drop_eq_nil_of_le (List.getElem?_eq_none_iff.mp h)

theorem cur_inj {i j : ℕ} (h : t.cur i = t.cur j) : i = j := by
  have hpos : t.base + i = t.base + j := congrArg Cur.pos h
  omega

/-- `x` is what `r` is: refused alike, or at the same place at or after `i`. -/
inductive Agrees {α : Type} (t : Text) (i : ℕ) : Except ParseError (α × Cur) → Except Halt (α × ℕ) → Prop
  | refused (e : ParseError) : Agrees t i (.error e) (.error (.refused e))
  | ok (a : α) {j : ℕ} (hij : i ≤ j) (hj : j ≤ t.chars.length) : Agrees t i (.ok (a, t.cur j)) (.ok (a, j))

theorem Agrees.mono {α : Type} {i j : ℕ} {r : Except ParseError (α × Cur)} {x : Except Halt (α × ℕ)} (hij : i ≤ j)
    (h : Agrees t j r x) : Agrees t i r x := by
  cases h with
  | refused e => exact .refused e
  | ok a hjk hk => exact .ok a (hij.trans hjk) hk

/-- The loop rule of the cursor: its rounds move an index on. -/
theorem run_post {σ α : Type} (I : σ → Prop) (index : σ → ℕ) (Post : Except Halt α → Prop)
    {round : σ → Except Halt (Round σ α)}
    (hround : ∀ s, I s → RoundPost I (fun s => t.chars.length - index s) Post s (round s)) {s : σ} (hI : I s) :
    Post (t.run round s) := loop_post I _ Post hround hI (by omega)

/-! ### Skipping -/

theorem skip_eq (p : Char → Bool) {i : ℕ} (hi : i ≤ t.chars.length) :
    ∃ j, t.skip p i = .ok j ∧ i ≤ j ∧ j ≤ t.chars.length ∧ (t.cur i).skipWhile p = t.cur j := by
  have hlen : ((t.chars.drop i).takeWhile p).length ≤ t.chars.length - i :=
    (List.takeWhile_sublist p).length_le.trans (by rw [List.length_drop])
  have hend : (t.cur i).skipWhile p = t.cur (i + ((t.chars.drop i).takeWhile p).length) := by
    have hdrop : (t.chars.drop i).dropWhile p = t.chars.drop (i + ((t.chars.drop i).takeWhile p).length) := by
      rw [← List.drop_drop]
      conv_rhs => arg 2; rw [← List.takeWhile_append_dropWhile (p := p) (l := t.chars.drop i)]
      rw [List.drop_left]
    unfold Cur.skipWhile cur
    rw [hdrop, Nat.add_assoc]
  refine ⟨_, ?_, Nat.le_add_right _ _, by omega, hend⟩
  -- the place where the skipping ends is the same from every index on the way
  refine run_post (fun s => s ≤ t.chars.length ∧
    (t.cur s).skipWhile p = t.cur (i + ((t.chars.drop i).takeWhile p).length)) id (· = .ok _) ?_ ⟨hi, hend⟩
  rintro s ⟨hs, hstep⟩
  unfold skipRound
  cases hpeek : t.peek s with
  | none =>
    have hhere : (t.cur s).skipWhile p = t.cur s := by
      unfold Cur.skipWhile cur
      simp [drop_of_peek_none hpeek]
    exact congrArg Except.ok (cur_inj (hhere.symm.trans hstep))
  | some c =>
    have hlt := lt_of_peek hpeek
    have hdrop := drop_of_peek hpeek
    by_cases hp : p c = true
    · have hnext : (t.cur (s + 1)).skipWhile p = (t.cur s).skipWhile p := by
        unfold Cur.skipWhile cur
        simp only [hdrop, List.dropWhile_cons_of_pos hp, List.takeWhile_cons_of_pos hp, List.length_cons]
        congr 1
        omega
      have hless : t.chars.length - (s + 1) < t.chars.length - s := by omega
      simp only [hp, if_true]
      exact ⟨⟨hlt, hnext.trans hstep⟩, hless⟩
    · have hhere : (t.cur s).skipWhile p = t.cur s := by
        unfold Cur.skipWhile cur
        simp [hdrop, hp]
      simp only [hp]
      exact congrArg Except.ok (cur_inj (hhere.symm.trans hstep))

/-! ### Tokens -/

theorem slice_eq {i j : ℕ} (hij : i ≤ j) (hj : j ≤ t.chars.length) :
    t.slice i j = .ok ((t.chars.drop i).take (j - i)) := by
  unfold slice
  rw [if_pos ⟨hij, hj⟩, List.drop_take]

/-- A token is the scanner's, and ends where it does. -/
theorem token_agrees (ends : Char → Bool) {i : ℕ} (hi : i ≤ t.chars.length) :
    Agrees t i (.ok ((t.cur i).token ends)) (t.token ends i) := by
  obtain ⟨j, hskip, hij, hj, hend⟩ := skip_eq (fun c => !ends c) hi
  have hpos : i + ((t.chars.drop i).takeWhile fun c => !ends c).length = j := by
    have := congrArg Cur.pos hend
    simp only [Cur.skipWhile, cur] at this
    omega
  have htake : (t.chars.drop i).take (j - i) = (t.chars.drop i).takeWhile fun c => !ends c := by
    have hlen : j - i = ((t.chars.drop i).takeWhile fun c => !ends c).length := by omega
    rw [hlen]
    conv_lhs => arg 2; rw [← List.takeWhile_append_dropWhile (p := fun c => !ends c) (l := t.chars.drop i)]
    exact List.take_left
  have hscan : t.token ends i = .ok (String.ofList (trim ((t.chars.drop i).takeWhile fun c => !ends c)), j) := by
    unfold token
    simp only [hskip, slice_eq hij hj, htake, bind, Except.bind, pure, Except.pure]
  have hcur : (t.cur i).token ends = (String.ofList (trim ((t.chars.drop i).takeWhile fun c => !ends c)), t.cur j) := by
    unfold Cur.token
    rw [hend]
    rfl
  rw [hscan, hcur]
  exact .ok _ hij hj

/-- The raw text before a scalar's closing quote, after what was scanned. -/
def scanned (raw : List Char) (r : Except ParseError (List Char × Cur)) : Except ParseError (List Char × Cur) :=
  r.map fun q => (raw ++ q.1, q.2)

theorem scanned_map (raw c : List Char) (r : Except ParseError (List Char × Cur)) :
    scanned raw (r.map fun q => (c ++ q.1, q.2)) = scanned (raw ++ c) r := by
  cases r <;> simp [scanned, Except.map]

theorem quotedLoop_agrees (start : ℕ) {i : ℕ} (hi : i ≤ t.chars.length) :
    Agrees t i (Cur.quotedLoop start (t.chars.drop i) (t.base + i)) (t.run (t.quotedRound start) ([], i)) := by
  generalize htarget : Cur.quotedLoop start (t.chars.drop i) (t.base + i) = target
  have hstart : scanned [] (Cur.quotedLoop start (t.chars.drop i) (t.base + i)) = target := by
    rw [htarget]
    cases target <;> rfl
  refine run_post (fun s => i ≤ s.2 ∧ s.2 ≤ t.chars.length ∧ scanned s.1 (Cur.quotedLoop start (t.chars.drop s.2)
    (t.base + s.2)) = target) Prod.snd (Agrees t i target) ?_ ⟨le_rfl, hi, hstart⟩
  rintro ⟨raw, s⟩ ⟨his, hs, hI⟩
  dsimp only at his hs hI
  unfold quotedRound
  rw [Cur.quotedLoop.eq_def] at hI
  cases hpeek : t.peek s with
  | none =>
    rw [drop_of_peek_none hpeek] at hI
    simp only [hpeek]
    rw [← hI]
    exact Agrees.refused _
  | some c =>
    have hlt := lt_of_peek hpeek
    rw [drop_of_peek hpeek] at hI
    simp only [hpeek] at hI ⊢
    by_cases hq : c = '"'
    · rw [if_pos hq] at hI ⊢
      have hdone : scanned raw (.ok ([], ⟨t.chars.drop (s + 1), t.base + s + 1⟩)) = .ok (raw, t.cur (s + 1)) := by
        simp [scanned, Except.map, cur, Nat.add_assoc]
      rw [← hI, hdone]
      exact Agrees.ok _ (his.trans (Nat.le_succ s)) hlt
    · rw [if_neg hq] at hI ⊢
      by_cases hb : c = '\\'
      · rw [if_pos hb] at hI ⊢
        cases hnext : t.peek (s + 1) with
        | none =>
          rw [drop_of_peek_none hnext] at hI
          simp only
          rw [← hI]
          exact Agrees.refused _
        | some d =>
          have hlt' := lt_of_peek hnext
          rw [drop_of_peek hnext] at hI
          have hless : t.chars.length - (s + 2) < t.chars.length - s := by omega
          refine ⟨⟨his.trans (Nat.le_add_right s 2), hlt', ?_⟩, hless⟩
          rw [← hI]
          exact (scanned_map raw ['\\', d] _).symm
      · rw [if_neg hb] at hI ⊢
        have hless : t.chars.length - (s + 1) < t.chars.length - s := by omega
        refine ⟨⟨his.trans (Nat.le_succ s), hlt, ?_⟩, hless⟩
        rw [← hI]
        exact (scanned_map raw [c] _).symm

theorem quoted_agrees {i : ℕ} (h : t.peek i = some '"') : Agrees t (i + 1) (t.cur i).quoted (t.quoted i) := by
  have hlt := lt_of_peek h
  have hloop := quotedLoop_agrees (t.offset i) hlt
  unfold quoted Cur.quoted
  rw [if_pos h, advance_cur]
  have hcur : Cur.quotedLoop (t.cur i).pos (t.cur (i + 1)).rest (t.cur (i + 1)).pos =
      Cur.quotedLoop (t.offset i) (t.chars.drop (i + 1)) (t.base + (i + 1)) := rfl
  have hpos : (t.cur i).pos = t.offset i := rfl
  rw [hcur, hpos]
  generalize Cur.quotedLoop (t.offset i) (t.chars.drop (i + 1)) (t.base + (i + 1)) = r at hloop
  generalize t.run (t.quotedRound (t.offset i)) ([], i + 1) = x at hloop
  cases hloop with
  | refused e => exact .refused e
  | ok raw hij hj =>
    simp only [bind, Except.bind, pure, Except.pure]
    cases unescape (t.offset i + 1) 0 raw with
    | error e => exact .refused e
    | ok s => exact .ok _ hij hj

theorem key_agrees {i : ℕ} (hi : i ≤ t.chars.length) : Agrees t i (t.cur i).key (t.key i) := by
  unfold key Cur.key
  rw [← peek_eq]
  by_cases hq : t.peek i = some '"'
  · rw [if_pos hq, if_pos hq]
    exact (quoted_agrees hq).mono (Nat.le_succ i)
  · rw [if_neg hq, if_neg hq]
    exact token_agrees _ hi

/-! ### Mappings and sequences -/

/-- `x` is what `r` is, or the stack is used up, with no more calls than there
are characters. -/
def AgreesWithin (t : Text) (stack i : ℕ) (r : Except ParseError (Value × Cur)) (x : Except Halt (Value × ℕ)) : Prop :=
  x = .error .overflowed ∧ stack ≤ t.chars.length - i ∨ Agrees t i r x

/-- The values inside, from `lo` on, are the scanner's while the stack lasts. -/
def ValuesFrom (D : ReadEnv) (t : Text) (stack lo : ℕ) (value : ℕ → Except Halt (Value × ℕ)) : Prop :=
  ∀ i fuel r, lo ≤ i → i ≤ t.chars.length → Cur.value D fuel (t.cur i) = some r → AgreesWithin t stack i r (value i)

/-- Between two rounds of a mapping whose scan answers `target`. -/
def InMap (D : ReadEnv) (t : Text) (start lo : ℕ) (target : Except ParseError (Value × Cur))
    (s : List (String × Value) × ℕ) : Prop :=
  lo ≤ s.2 ∧ s.2 ≤ t.chars.length ∧ ∃ fuel, Cur.flowMap D fuel start s.1 (t.cur s.2) = some target

/-- Between two rounds of a sequence whose scan answers `target`. -/
def InSeq (D : ReadEnv) (t : Text) (start lo : ℕ) (target : Except ParseError (Value × Cur)) (s : List Value × ℕ) :
    Prop :=
  lo ≤ s.2 ∧ s.2 ≤ t.chars.length ∧ ∃ fuel, Cur.flowSeq D fuel start s.1 (t.cur s.2) = some target

variable {D} {stack start lo : ℕ} {target : Except ParseError (Value × Cur)} {value : ℕ → Except Halt (Value × ℕ)}

theorem mapRound_post (hvalue : ValuesFrom D t stack lo value) (s : List (String × Value) × ℕ)
    (hs : InMap D t start lo target s) : RoundPost (InMap D t start lo target) (fun s => t.chars.length - s.2)
      (AgreesWithin t stack lo target) s (t.mapRound D value start s) := by
  obtain ⟨m, i⟩ := s
  obtain ⟨hlo, hi, fuel, htarget⟩ := hs
  dsimp only at hlo hi htarget
  obtain ⟨j, hskip, hij, hj, hws⟩ := skip_eq Cur.isBlank hi
  have hws' : (t.cur i).skipWs = t.cur j := hws
  cases fuel with
  | zero => simp [Cur.flowMap] at htarget
  | succ fuel =>
    unfold Cur.flowMap at htarget
    unfold mapRound
    simp only [hws', ← peek_eq, hskip, bind, Except.bind] at htarget ⊢
    cases hpeek : t.peek j with
    | none =>
      simp only [hpeek] at htarget ⊢
      rw [← Option.some.inj htarget]
      exact .inr (Agrees.refused _)
    | some c =>
      have hlt := lt_of_peek hpeek
      simp only [hpeek, advance_cur] at htarget ⊢
      by_cases hclose : c = '}'
      · rw [if_pos hclose] at htarget ⊢
        rw [← Option.some.inj htarget]
        exact .inr (Agrees.ok _ (by omega) hlt)
      rw [if_neg hclose] at htarget ⊢
      by_cases hcomma : c = ','
      · rw [if_pos hcomma] at htarget ⊢
        have hless : t.chars.length - (j + 1) < t.chars.length - i := by omega
        exact ⟨⟨by dsimp only; omega, hlt, fuel, htarget⟩, hless⟩
      rw [if_neg hcomma] at htarget ⊢
      have hkey := key_agrees hj
      generalize (t.cur j).key = k at htarget hkey
      generalize t.key j = x at hkey ⊢
      cases hkey with
      | refused e =>
        simp only at htarget ⊢
        rw [← Option.some.inj htarget]
        exact .inr (Agrees.refused _)
      | @ok key k hjk hk =>
        obtain ⟨n, hskip', hkn, hn, hws''⟩ := skip_eq Cur.isBlank hk
        have hcolon' : (t.cur k).skipWs = t.cur n := hws''
        simp only [hcolon', hskip', ← peek_eq] at htarget ⊢
        by_cases hcolon : t.peek n = some ':'
        · have hltn := lt_of_peek hcolon
          simp only [hcolon, ne_eq, not_true_eq_false, if_false, advance_cur] at htarget ⊢
          cases hv : Cur.value D fuel (t.cur (n + 1)) with
          | none => simp [hv] at htarget
          | some r =>
            have hagrees := hvalue (n + 1) fuel r (by omega) hltn hv
            rw [hv] at htarget
            generalize value (n + 1) = y at hagrees ⊢
            rcases hagrees with ⟨rfl, hle⟩ | hagrees
            · exact .inl ⟨rfl, by omega⟩
            cases hagrees with
            | refused e =>
              simp only at htarget ⊢
              rw [← Option.some.inj htarget]
              exact .inr (Agrees.refused _)
            | @ok v q hnq hq =>
              simp only [pure, Except.pure] at htarget ⊢
              have hless : t.chars.length - q < t.chars.length - i := by omega
              exact ⟨⟨by dsimp only; omega, hq, fuel, htarget⟩, hless⟩
        · simp only [hcolon, ne_eq, not_false_eq_true, if_true] at htarget ⊢
          rw [← Option.some.inj htarget]
          exact .inr (Agrees.refused _)

theorem seqRound_post (hvalue : ValuesFrom D t stack lo value) (s : List Value × ℕ)
    (hs : InSeq D t start lo target s) : RoundPost (InSeq D t start lo target) (fun s => t.chars.length - s.2)
      (AgreesWithin t stack lo target) s (t.seqRound D value start s) := by
  obtain ⟨items, i⟩ := s
  obtain ⟨hlo, hi, fuel, htarget⟩ := hs
  dsimp only at hlo hi htarget
  obtain ⟨j, hskip, hij, hj, hws⟩ := skip_eq Cur.isBlank hi
  have hws' : (t.cur i).skipWs = t.cur j := hws
  cases fuel with
  | zero => simp [Cur.flowSeq] at htarget
  | succ fuel =>
    unfold Cur.flowSeq at htarget
    unfold seqRound
    simp only [hws', ← peek_eq, hskip, bind, Except.bind] at htarget ⊢
    cases hpeek : t.peek j with
    | none =>
      simp only [hpeek] at htarget ⊢
      rw [← Option.some.inj htarget]
      exact .inr (Agrees.refused _)
    | some c =>
      have hlt := lt_of_peek hpeek
      simp only [hpeek, advance_cur] at htarget ⊢
      by_cases hclose : c = ']'
      · rw [if_pos hclose] at htarget ⊢
        rw [← Option.some.inj htarget]
        exact .inr (Agrees.ok _ (by omega) hlt)
      rw [if_neg hclose] at htarget ⊢
      by_cases hcomma : c = ','
      · rw [if_pos hcomma] at htarget ⊢
        have hless : t.chars.length - (j + 1) < t.chars.length - i := by omega
        exact ⟨⟨by dsimp only; omega, hlt, fuel, htarget⟩, hless⟩
      rw [if_neg hcomma] at htarget ⊢
      cases hv : Cur.value D fuel (t.cur j) with
      | none => simp [hv] at htarget
      | some r =>
        have hagrees := hvalue j fuel r (by omega) hj hv
        rw [hv] at htarget
        generalize value j = y at hagrees ⊢
        rcases hagrees with ⟨rfl, hle⟩ | hagrees
        · exact .inl ⟨rfl, by omega⟩
        cases hagrees with
        | refused e =>
          simp only at htarget ⊢
          rw [← Option.some.inj htarget]
          exact .inr (Agrees.refused _)
        | @ok v q hjq hq =>
          have hpos : (t.cur q).pos = (t.cur j).pos ↔ q = j := by
            show t.base + q = t.base + j ↔ q = j
            omega
          simp only [hpos, ← peek_eq, pure, Except.pure] at htarget ⊢
          by_cases hstuck : q = j
          · rw [if_pos hstuck] at htarget ⊢
            rw [← Option.some.inj htarget]
            exact .inr (Agrees.refused _)
          · rw [if_neg hstuck] at htarget ⊢
            have hless : t.chars.length - q < t.chars.length - i := by omega
            exact ⟨⟨by dsimp only; omega, hq, fuel, htarget⟩, hless⟩

/-- **A value is what the scanner of what is left makes of it**, while the
stack lasts; it does where there is room for a call for every character left. -/
theorem value_agrees : ∀ {stack i fuel : ℕ} {r : Except ParseError (Value × Cur)}, i ≤ t.chars.length →
    Cur.value D fuel (t.cur i) = some r → AgreesWithin t stack i r (t.value D stack i)
  | 0, _, _, _, _, _ => .inl ⟨rfl, Nat.zero_le _⟩
  | stack + 1, i, fuel, r, hi, hr => by
    obtain ⟨j, hskip, hij, hj, hws⟩ := skip_eq Cur.isBlank hi
    have hws' : (t.cur i).skipWs = t.cur j := hws
    have hinside : ∀ lo, ValuesFrom D t stack lo (t.value D stack) := fun _ _ _ _ _ hlen hv => value_agrees hlen hv
    -- what is inside leaves room for this call
    have hroom : ∀ {x}, j < t.chars.length → AgreesWithin t stack (j + 1) r x → AgreesWithin t (stack + 1) i r x :=
      fun hlt h => h.imp (fun ⟨hx, hle⟩ => ⟨hx, by omega⟩) (Agrees.mono (by omega))
    cases fuel with
    | zero => simp [Cur.value] at hr
    | succ fuel =>
      unfold Cur.value at hr
      unfold value
      simp only [hws', ← peek_eq, hskip, bind, Except.bind] at hr ⊢
      by_cases hquote : t.peek j = some '"'
      · rw [if_pos hquote] at hr ⊢
        rw [← Option.some.inj hr]
        have hagrees := quoted_agrees hquote
        generalize (t.cur j).quoted = q at hagrees
        generalize t.quoted j = x at hagrees ⊢
        refine .inr (Agrees.mono (hij.trans (Nat.le_succ j)) ?_)
        cases hagrees with
        | refused e => exact Agrees.refused _
        | ok s hjk hk => exact Agrees.ok _ hjk hk
      rw [if_neg hquote] at hr ⊢
      by_cases hbrace : t.peek j = some '{'
      · rw [if_pos hbrace] at hr ⊢
        rw [advance_cur] at hr
        have hin : InMap D t (t.offset j) (j + 1) r ([], j + 1) := ⟨le_rfl, lt_of_peek hbrace, fuel, hr⟩
        exact hroom (lt_of_peek hbrace) (run_post _ Prod.snd _ (mapRound_post (hinside (j + 1))) hin)
      rw [if_neg hbrace] at hr ⊢
      by_cases hbracket : t.peek j = some '['
      · rw [if_pos hbracket] at hr ⊢
        rw [advance_cur] at hr
        have hin : InSeq D t (t.offset j) (j + 1) r ([], j + 1) := ⟨le_rfl, lt_of_peek hbracket, fuel, hr⟩
        exact hroom (lt_of_peek hbracket) (run_post _ Prod.snd _ (seqRound_post (hinside (j + 1))) hin)
      rw [if_neg hbracket] at hr ⊢
      rw [← Option.some.inj hr]
      have hagrees := token_agrees Cur.endsBare hj
      unfold Cur.bare
      generalize (t.cur j).token Cur.endsBare = q at hagrees
      generalize t.token Cur.endsBare j = x at hagrees ⊢
      refine .inr (Agrees.mono hij ?_)
      cases hagrees with
      | ok s hjk hk => exact Agrees.ok _ hjk hk

theorem values_from (stack lo : ℕ) : ValuesFrom D t stack lo (t.value D stack) := fun _ _ _ _ hi hr => value_agrees hi hr

/-! ### Every round goes on further -/

variable (D t)

/-- A loop's round that goes on has moved its index on, inside the text; and a
value is refused, or ends at or after where it began, or the stack is used up,
which it is not with room for a call for every character left. -/
structure Progress (stack : ℕ) : Prop where
  skip : ∀ p i j, t.skipRound p i = .ok (.again j) → i < j ∧ j ≤ t.chars.length
  quoted : ∀ start raw i raw' j, t.quotedRound start (raw, i) = .ok (.again (raw', j)) →
    i < j ∧ j ≤ t.chars.length
  flowMap : ∀ start m i m' j, i ≤ t.chars.length →
    t.mapRound D (t.value D stack) start (m, i) = .ok (.again (m', j)) → i < j ∧ j ≤ t.chars.length
  flowSeq : ∀ start items i items' j, i ≤ t.chars.length →
    t.seqRound D (t.value D stack) start (items, i) = .ok (.again (items', j)) → i < j ∧ j ≤ t.chars.length
  value : ∀ i ≤ t.chars.length, (t.value D stack i = .error .overflowed ∧ stack ≤ t.chars.length - i) ∨
    (∃ e, t.value D stack i = .error (.refused e)) ∨
    ∃ v j, t.value D stack i = .ok (v, j) ∧ i ≤ j ∧ j ≤ t.chars.length

variable {D t}

theorem value_isSome (i : ℕ) : ∃ fuel r, Cur.value D fuel (t.cur i) = some r := by
  obtain ⟨r, hr⟩ := Cur.value_isSome D (t.chars.drop i) (t.base + i)
  exact ⟨_, r, hr⟩

theorem skipRound_again {p : Char → Bool} {i j : ℕ} (h : t.skipRound p i = .ok (.again j)) :
    i < j ∧ j ≤ t.chars.length := by
  unfold skipRound at h
  split at h
  · simp at h
  · rename_i c hpeek
    have hlt := lt_of_peek hpeek
    split_ifs at h
    · obtain rfl : i + 1 = j := by simpa using h
      omega
    · simp at h

theorem quotedRound_again {start i j : ℕ} {raw raw' : List Char}
    (h : t.quotedRound start (raw, i) = .ok (.again (raw', j))) : i < j ∧ j ≤ t.chars.length := by
  unfold quotedRound at h
  simp only at h
  split at h
  · simp at h
  · rename_i c hpeek
    have hlt := lt_of_peek hpeek
    split_ifs at h
    · simp at h
    · split at h
      · simp at h
      · rename_i d hnext
        have hlt' := lt_of_peek hnext
        obtain ⟨-, rfl⟩ : raw ++ ['\\', d] = raw' ∧ i + 2 = j := by simpa using h
        omega
    · obtain ⟨-, rfl⟩ : raw ++ [c] = raw' ∧ i + 1 = j := by simpa using h
      omega

/-- **The cursor goes on, or returns.** -/
theorem progress (D : ReadEnv) (t : Text) (stack : ℕ) : Progress D t stack where
  skip _ _ _ := skipRound_again
  quoted _ _ _ _ _ := quotedRound_again
  flowMap start m i m' j hi h := by
    obtain ⟨target, htarget, -⟩ := (Cur.answers_all (D := D) _).2.1 start m (t.cur i) le_rfl
    have hround := mapRound_post (values_from stack 0) (m, i) ⟨Nat.zero_le i, hi, _, htarget⟩
    rw [h] at hround
    obtain ⟨⟨-, hj, -⟩, hless⟩ := hround
    dsimp only at hj hless
    omega
  flowSeq start items i items' j hi h := by
    obtain ⟨target, htarget, -⟩ := (Cur.answers_all (D := D) _).2.2 start items (t.cur i) le_rfl
    have hround := seqRound_post (values_from stack 0) (items, i) ⟨Nat.zero_le i, hi, _, htarget⟩
    rw [h] at hround
    obtain ⟨⟨-, hj, -⟩, hless⟩ := hround
    dsimp only at hj hless
    omega
  value i hi := by
    obtain ⟨fuel, r, hr⟩ := value_isSome (D := D) (t := t) i
    have hagrees : AgreesWithin t stack i r (t.value D stack i) := value_agrees hi hr
    rcases hagrees with hover | hagrees
    · exact .inl hover
    · generalize t.value D stack i = x at hagrees
      cases hagrees with
      | refused e => exact .inr (.inl ⟨e, rfl⟩)
      | ok v hij hj => exact .inr (.inr ⟨v, _, rfl, hij, hj⟩)

end Text

/-! ### The document -/

section Document

variable (D : ReadEnv)

/-- `&text[..n]` of a text and a place in its bytes. -/
def sliceTo : List Char → ℕ → Except Halt (List Char)
  | _, 0 => .ok []
  | [], _ + 1 => .error .panicked
  | c :: l, n + 1 =>
    if c.utf8Size ≤ n + 1 then (sliceTo l (n + 1 - c.utf8Size)).map (c :: ·) else .error .panicked

/-- `find`, whose answer is a place in the bytes. -/
def findBytes (needle l : List Char) : Option ℕ := (textBefore needle l).map byteLen

/-- The fenced block, cut at the place `find` gives. -/
def cutFenced (doc : List Char) : Except Halt (List Char × ℕ) :=
  if "---\n".toList.isPrefixOf doc then
    match findBytes "\n---".toList (doc.drop 4) with
    | some n => (sliceTo (doc.drop 4) n).map fun block => (block, 4)
    | none => .error (.refused .noFrontMatter)
  else .error (.refused .noFrontMatter)

variable (stack : ℕ)

/-- The lines from the `n`th on, each value under a cursor of its own. -/
def scanLines : ℕ → ℕ → List (String × Value) → List (List Char) → Except Halt (List (String × Value))
  | _, _, top, [] => .ok top
  | n, offset, top, line :: ls =>
    let trimmed := trim line
    if trimmed.isEmpty then scanLines (n + 1) (offset + (byteLen line + 1)) top ls
    else match splitOnce ':' trimmed with
      | none => .error (.refused (.malformedLine (n + 1) (String.ofList trimmed)))
      | some (key, rest) =>
        match Text.value D ⟨rest, offset + byteLen key + 1⟩ stack 0 with
        | .error h => .error h
        | .ok (v, _) => scanLines (n + 1) (offset + (byteLen line + 1)) (insertKey (String.ofList (trim key)) v top) ls

/-- `parse_front_matter`, with what could end the process in the open. -/
def scanFrontMatter (doc : List Char) : Except Halt FrontMatter :=
  match cutFenced doc with
  | .error h => .error h
  | .ok (block, base) =>
    match scanLines D stack 0 base [] (lines block) with
    | .error h => .error h
    | .ok top => (FrontMatter.ofTop D top).mapError .refused

/-- A place between two characters is a place to cut at. -/
theorem sliceTo_byteLen : ∀ a b : List Char, sliceTo (a ++ b) (byteLen a) = .ok a
  | [], b => by unfold sliceTo byteLen; rfl
  | c :: a, b => by
    have hpos := c.utf8Size_pos
    have hlen : byteLen (c :: a) = (c.utf8Size - 1 + byteLen a) + 1 := by
      simp only [byteLen, List.map_cons, List.sum_cons]
      omega
    have hrest : c.utf8Size - 1 + byteLen a + 1 - c.utf8Size = byteLen a := by omega
    rw [List.cons_append, hlen, sliceTo, if_pos (by omega), hrest, sliceTo_byteLen a b]
    rfl

theorem cutFenced_eq (doc : List Char) : cutFenced doc = (fenced doc).mapError .refused := by
  unfold cutFenced fenced findBytes
  split_ifs
  · cases hbefore : textBefore "\n---".toList (doc.drop 4) with
    | none => rfl
    | some block =>
      obtain ⟨rest, hrest⟩ := textBefore_prefix hbefore
      simp only [Option.map_some]
      rw [hrest, sliceTo_byteLen]
      rfl
  · rfl

theorem scanLines_eq : ∀ (ls : List (List Char)) {n offset : ℕ} {top : List (String × Value)}
    {r : Except ParseError (List (String × Value))}, readLines D n offset top ls = some r →
    scanLines D stack n offset top ls = .error .overflowed ∨ scanLines D stack n offset top ls = r.mapError .refused
  | [], _, _, _, _, h => by
    rw [← Option.some.inj h]
    exact .inr rfl
  | line :: ls, n, offset, top, r, h => by
    unfold readLines at h
    unfold scanLines
    simp only at h ⊢
    by_cases hempty : (trim line).isEmpty = true
    · rw [if_pos hempty] at h ⊢
      exact scanLines_eq ls h
    rw [if_neg hempty] at h ⊢
    cases hsplit : splitOnce ':' (trim line) with
    | none =>
      simp only [hsplit] at h ⊢
      rw [← Option.some.inj h]
      exact .inr rfl
    | some p =>
      obtain ⟨key, rest⟩ := p
      simp only [hsplit] at h ⊢
      obtain ⟨v, hv⟩ := Cur.value_isSome D rest (offset + byteLen key + 1)
      have hagrees : Text.AgreesWithin ⟨rest, offset + byteLen key + 1⟩ stack 0 v
          (Text.value D ⟨rest, offset + byteLen key + 1⟩ stack 0) := Text.value_agrees (Nat.zero_le _) hv
      rw [hv] at h
      generalize Text.value D _ _ 0 = x at hagrees ⊢
      rcases hagrees with ⟨rfl, -⟩ | hagrees
      · exact .inl rfl
      cases hagrees with
      | refused e =>
        rw [← Option.some.inj h]
        exact .inr rfl
      | ok v => exact scanLines_eq ls h

/-- **The scan by indices is the parse**, or the stack is used up; it neither
panics nor is left unfinished. -/
theorem scanFrontMatter_cases {doc : List Char} {r : Except ParseError FrontMatter}
    (h : parseFrontMatter D doc = some r) :
    scanFrontMatter D stack doc = .error .overflowed ∨ scanFrontMatter D stack doc = r.mapError .refused := by
  unfold parseFrontMatter at h
  unfold scanFrontMatter
  rw [cutFenced_eq]
  cases hfenced : fenced doc with
  | error e =>
    rw [hfenced] at h
    rw [← Option.some.inj h]
    exact .inr rfl
  | ok p =>
    obtain ⟨block, base⟩ := p
    simp only [hfenced] at h
    obtain ⟨top, htop, rfl⟩ := Option.map_eq_some_iff.mp h
    rcases scanLines_eq D stack _ htop with hlines | hlines
    · simp only [Except.mapError, hlines, true_or]
    · simp only [Except.mapError, hlines]
      cases top <;> exact .inr rfl

end Document

end Cases
end Logmon
