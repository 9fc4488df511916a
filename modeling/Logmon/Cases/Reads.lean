/-
# What the renderer writes, the scanner reads

A text reads as a value (`Reads`) when the scanner, started on it, gives the
value and stops where the text ends. Each form the renderer writes reads as
what was written: quoted scalars with every character escaped as it must be
(`reads_yamlStr`), words (`reads_word`), sequences (`reads_seq`) and mappings
(`reads_map`) of texts that do; and lines of them bind what they say
(`readLines_written`).

Key definitions: `SafeStem`, `Reads`, `ReadsKey`, `Entry`.
Key theorems: `reads_yamlStr`, `reads_word`, `reads_seq`, `reads_map`,
`readLines_written`.
-/
import Logmon.Cases.Document

namespace Logmon
namespace Cases

open Lib

/-! ### Escapes -/

/-- The three forms a character is written in. -/
theorem yamlEscape_cases (c : Char) :
    (c ≠ '\\' ∧ c ≠ '"' ∧ c ≠ '\n' ∧ c ≠ '\r' ∧ yamlEscape c = [c]) ∨
    (∃ d, simpleEscape? d = some c ∧ d ≠ 'x' ∧ d ≠ '\n' ∧ d ≠ '\r' ∧ yamlEscape c = ['\\', d]) ∨
    (c.toNat < 128 ∧ yamlEscape c = '\\' :: 'x' :: hex2 c.toNat) := by
  unfold yamlEscape
  by_cases h1 : c = '\\'
  · rw [if_pos h1]
    exact Or.inr (Or.inl ⟨'\\', by rw [h1]; decide⟩)
  by_cases h2 : c = '"'
  · rw [if_neg h1, if_pos h2]
    exact Or.inr (Or.inl ⟨'"', by rw [h2]; decide⟩)
  by_cases h3 : c = '\n'
  · rw [if_neg h1, if_neg h2, if_pos h3]
    exact Or.inr (Or.inl ⟨'n', by rw [h3]; decide⟩)
  by_cases h4 : c = '\r'
  · rw [if_neg h1, if_neg h2, if_neg h3, if_pos h4]
    exact Or.inr (Or.inl ⟨'r', by rw [h4]; decide⟩)
  by_cases h5 : c = '\t'
  · rw [if_neg h1, if_neg h2, if_neg h3, if_neg h4, if_pos h5]
    exact Or.inr (Or.inl ⟨'t', by rw [h5]; decide⟩)
  rw [if_neg h1, if_neg h2, if_neg h3, if_neg h4, if_neg h5]
  by_cases h6 : (c.toNat < 0x20 || c.toNat == 0x7f) = true
  · rw [if_pos h6]
    refine Or.inr (Or.inr ⟨?_, rfl⟩)
    simp only [Bool.or_eq_true, decide_eq_true_eq, beq_iff_eq] at h6
    omega
  rw [if_neg h6]
  by_cases h7 : c = '\u0085'
  · rw [if_pos h7]
    exact Or.inr (Or.inl ⟨'N', by rw [h7]; decide⟩)
  by_cases h8 : c = '\u2028'
  · rw [if_neg h7, if_pos h8]
    exact Or.inr (Or.inl ⟨'L', by rw [h8]; decide⟩)
  by_cases h9 : c = '\u2029'
  · rw [if_neg h7, if_neg h8, if_pos h9]
    exact Or.inr (Or.inl ⟨'P', by rw [h9]; decide⟩)
  rw [if_neg h7, if_neg h8, if_neg h9]
  exact Or.inl ⟨h1, h2, h3, h4, rfl⟩

theorem hexPair?_hex2 : ∀ n < 128, hexPair? (Nat.digitChar (n / 16)) (Nat.digitChar (n % 16)) = some n := by decide

/-- The digits are neither quote, backslash nor line end. -/
theorem digitChar_plain : ∀ n < 16, Nat.digitChar n ≠ '"' ∧ Nat.digitChar n ≠ '\\' ∧ Nat.digitChar n ≠ '\n' ∧
    Nat.digitChar n ≠ '\r' := by decide

theorem yamlEscape_oneLine (c : Char) : OneLine (yamlEscape c) := by
  unfold OneLine
  rcases yamlEscape_cases c with ⟨-, -, hn, hr, h⟩ | ⟨d, -, -, hn, hr, h⟩ | ⟨hlt, h⟩
  · rw [h]
    simp [Ne.symm hn, Ne.symm hr]
  · rw [h]
    simp [Ne.symm hn, Ne.symm hr]
  · obtain ⟨-, -, hn, hr⟩ := digitChar_plain (c.toNat / 16) (by omega)
    obtain ⟨-, -, hn', hr'⟩ := digitChar_plain (c.toNat % 16) (by omega)
    rw [h]
    simp [hex2, Ne.symm hn, Ne.symm hr, Ne.symm hn', Ne.symm hr']

theorem quotedLoop_plain {start : ℕ} {c : Char} (hq : c ≠ '"') (hb : c ≠ '\\') (rest : List Char) (pos : ℕ) :
    Cur.quotedLoop start (c :: rest) pos = (Cur.quotedLoop start rest (pos + 1)).map fun r => (c :: r.1, r.2) := by
  rw [Cur.quotedLoop.eq_def]
  simp only [if_neg hq, if_neg hb]

theorem quotedLoop_escape (start : ℕ) (d : Char) (rest : List Char) (pos : ℕ) :
    Cur.quotedLoop start ('\\' :: d :: rest) pos =
      (Cur.quotedLoop start rest (pos + 2)).map fun r => ('\\' :: d :: r.1, r.2) := by
  rw [Cur.quotedLoop.eq_def]
  rfl

/-- The scanner takes a written character as a whole. -/
theorem quotedLoop_yamlEscape (start : ℕ) (c : Char) (rest : List Char) (pos : ℕ) :
    Cur.quotedLoop start (yamlEscape c ++ rest) pos =
      (Cur.quotedLoop start rest (pos + (yamlEscape c).length)).map fun r => (yamlEscape c ++ r.1, r.2) := by
  rcases yamlEscape_cases c with ⟨hb, hq, -, -, h⟩ | ⟨d, -, -, -, -, h⟩ | ⟨hlt, h⟩
  · rw [h]
    exact quotedLoop_plain hq hb rest pos
  · rw [h]
    exact quotedLoop_escape start d rest pos
  · obtain ⟨hq, hb, -, -⟩ := digitChar_plain (c.toNat / 16) (by omega)
    obtain ⟨hq', hb', -, -⟩ := digitChar_plain (c.toNat % 16) (by omega)
    rw [h]
    simp only [hex2, List.cons_append, List.nil_append]
    rw [quotedLoop_escape, quotedLoop_plain hq hb, quotedLoop_plain hq' hb']
    cases Cur.quotedLoop start rest (pos + 2 + 1 + 1) <;> rfl

theorem unescape_plain {base : ℕ} {c : Char} (hb : c ≠ '\\') (i : ℕ) (rest : List Char) :
    unescape base i (c :: rest) = (unescape base (i + c.utf8Size) rest).map (c :: ·) := by
  rw [unescape.eq_def]
  simp only [if_pos hb]

theorem unescape_simple {base : ℕ} {c d : Char} (hx : d ≠ 'x') (hd : simpleEscape? d = some c) (i : ℕ)
    (rest : List Char) :
    unescape base i ('\\' :: d :: rest) = (unescape base (i + 1 + d.utf8Size) rest).map (c :: ·) := by
  rw [unescape.eq_def]
  simp only [ne_eq, not_true_eq_false, if_false, if_neg hx, hd]

theorem unescape_hex {base n : ℕ} {hi lo : Char} (hn : hexPair? hi lo = some n) (hv : n.isValidChar) (i : ℕ)
    (rest : List Char) :
    unescape base i ('\\' :: 'x' :: hi :: lo :: rest) =
      (unescape base (i + 2 + hi.utf8Size + lo.utf8Size) rest).map (Char.ofNat n :: ·) := by
  rw [unescape.eq_def]
  simp only [ne_eq, not_true_eq_false, if_false, if_true, hn, if_pos hv]

/-- Un-escaping takes a written character back. -/
theorem unescape_yamlEscape (base : ℕ) (c : Char) (rest : List Char) (i : ℕ) :
    ∃ j, unescape base i (yamlEscape c ++ rest) = (unescape base j rest).map (c :: ·) := by
  rcases yamlEscape_cases c with ⟨hb, -, -, -, h⟩ | ⟨d, hd, hx, -, -, h⟩ | ⟨hlt, h⟩
  · rw [h]
    exact ⟨_, unescape_plain hb i rest⟩
  · rw [h]
    exact ⟨_, unescape_simple hx hd i rest⟩
  · have hback := @unescape_hex base _ _ _ (hexPair?_hex2 _ hlt) (Or.inl (by omega)) i rest
    rw [Char.ofNat_toNat] at hback
    rw [h]
    exact ⟨_, hback⟩

/-- **The text of a quoted scalar is un-escaped to what was written.** -/
theorem unescape_flatMap (base : ℕ) : ∀ (l : List Char) (i : ℕ), unescape base i (l.flatMap yamlEscape) = .ok l
  | [], _ => rfl
  | c :: l, i => by
    obtain ⟨j, hj⟩ := unescape_yamlEscape base c (l.flatMap yamlEscape) i
    rw [List.flatMap_cons, hj, unescape_flatMap base l j]
    rfl

/-- The scanner stops at the closing quote, and at no other. -/
theorem quotedLoop_flatMap (start : ℕ) (rest : List Char) : ∀ (l : List Char) (pos : ℕ),
    Cur.quotedLoop start (l.flatMap yamlEscape ++ '"' :: rest) pos =
      .ok (l.flatMap yamlEscape, ⟨rest, pos + (l.flatMap yamlEscape).length + 1⟩)
  | [], pos => by
    rw [List.flatMap_nil, List.nil_append, Cur.quotedLoop.eq_def]
    rfl
  | c :: l, pos => by
    rw [List.flatMap_cons, List.append_assoc, quotedLoop_yamlEscape, quotedLoop_flatMap start rest l, List.length_append]
    simp only [Except.map, Nat.add_assoc]

theorem quoted_yamlStr (s : String) (rest : List Char) (pos : ℕ) :
    Cur.quoted ⟨yamlStr s ++ rest, pos⟩ = .ok (s, ⟨rest, pos + (yamlStr s).length⟩) := by
  have hloop := quotedLoop_flatMap pos rest s.toList (pos + 1)
  unfold Cur.quoted Cur.advance
  simp only [yamlStr, List.cons_append, List.tail_cons, List.append_assoc, List.nil_append, hloop]
  simp only [bind, Except.bind, unescape_flatMap, pure, Except.pure, String.ofList_toList, List.length_cons,
    List.length_append, List.length_nil]
  congr 3
  omega

/-! ### Values -/

/-- ASCII letters, digits, `_` and `-`: what `safe_name` leaves of a name. -/
def isSafe (c : Char) : Bool := c.isAlphanum || c = '_' || c = '-'

/-- A word of safe characters. -/
def SafeStem (w : String) : Prop := w.toList ≠ [] ∧ ∀ c ∈ w.toList, isSafe c = true

instance (w : String) : Decidable (SafeStem w) :=
  decidable_of_iff ((w.toList ≠ []) ∧ w.toList.all isSafe = true) (and_congr_right fun _ => List.all_eq_true)

/-- Nothing, or what ends a scalar. -/
def Stops (rest : List Char) : Prop := ∀ c ∈ rest.head?, Cur.endsBare c = true

/-- The scanner reads the text as the value, on one line, up to where it ends. -/
structure Reads (D : ReadEnv) (t : List Char) (v : Value) : Prop where
  oneLine : OneLine t
  ne_nil : t ≠ []
  trimmed : Trimmed t
  head : ∀ c ∈ t.head?, Cur.endsBare c = false
  reads : ∀ (rest : List Char), Stops rest → ∀ (pos fuel : ℕ), 2 * t.length + 1 ≤ fuel →
    Cur.value D fuel ⟨t ++ rest, pos⟩ = some (.ok (v, ⟨rest, pos + t.length⟩))

theorem skipWhile_of_head {p : Char → Bool} {cur : Cur} (h : ∀ c ∈ cur.rest.head?, p c = false) :
    cur.skipWhile p = cur := by
  obtain ⟨rest, pos⟩ := cur
  unfold Cur.skipWhile
  cases rest with
  | nil => rfl
  | cons c l =>
    rw [dropWhile_eq_self h, List.takeWhile_cons_of_neg (by simpa using h c rfl)]
    rfl

theorem isBlank_of_isWhiteSpace {c : Char} (h : isWhiteSpace c = false) : Cur.isBlank c = false := by
  rw [Bool.eq_false_iff] at h ⊢
  intro hb
  refine h ?_
  unfold Cur.isBlank at hb
  simp only [Bool.or_eq_true, decide_eq_true_eq] at hb
  rcases hb with rfl | rfl
  · decide
  · decide

/-- A text that is trimmed starts where it stands. -/
theorem skipWs_of_trimmed {t : List Char} (hne : t ≠ []) (h : Trimmed t) (rest : List Char) (pos : ℕ) :
    Cur.skipWs ⟨t ++ rest, pos⟩ = ⟨t ++ rest, pos⟩ := by
  refine skipWhile_of_head fun c hc => isBlank_of_isWhiteSpace (h.1 c ?_)
  cases t with
  | nil => exact absurd rfl hne
  | cons a l => exact hc

/-- A blank before the text does not matter. -/
theorem skipWs_blank (rest : List Char) (pos : ℕ) :
    Cur.skipWs ⟨' ' :: rest, pos⟩ = Cur.skipWs ⟨rest, pos + 1⟩ := by
  unfold Cur.skipWs Cur.skipWhile
  simp [Cur.isBlank]
  omega

theorem value_skipWs (D : ReadEnv) (fuel : ℕ) {a b : Cur} (h : a.skipWs = b.skipWs) :
    Cur.value D fuel a = Cur.value D fuel b := by
  cases fuel with
  | zero => simp [Cur.value]
  | succ fuel => simp only [Cur.value, h]

theorem trimmed_yamlStr (s : String) : Trimmed (yamlStr s) := by
  refine ⟨fun c hc => ?_, fun c hc => ?_⟩
  · obtain rfl : '"' = c := by simpa [yamlStr] using hc
    decide
  · obtain rfl : '"' = c := by simpa [yamlStr, List.getLast?_cons] using hc
    decide

theorem oneLine_yamlStr (s : String) : OneLine (yamlStr s) := by
  refine ⟨fun hm => ?_, fun hm => ?_⟩
  · obtain ⟨c, -, hm⟩ : ∃ c ∈ s.toList, '\n' ∈ yamlEscape c := by simpa [yamlStr] using hm
    exact (yamlEscape_oneLine c).1 hm
  · obtain ⟨c, -, hm⟩ : ∃ c ∈ s.toList, '\r' ∈ yamlEscape c := by simpa [yamlStr] using hm
    exact (yamlEscape_oneLine c).2 hm

variable {D : ReadEnv}

/-- **A quoted scalar reads as the text that was quoted.** -/
theorem reads_yamlStr (s : String) : Reads D (yamlStr s) (.str s) := by
  refine ⟨oneLine_yamlStr s, by simp [yamlStr], trimmed_yamlStr s, by simp [yamlStr, Cur.endsBare],
    fun rest _ pos fuel hfuel => ?_⟩
  obtain ⟨fuel, rfl⟩ : ∃ f, fuel = f + 1 := ⟨fuel - 1, by omega⟩
  have hpeek : Cur.peek ⟨yamlStr s ++ rest, pos⟩ = some '"' := rfl
  rw [Cur.value]
  simp only [skipWs_of_trimmed (by simp [yamlStr]) (trimmed_yamlStr s)]
  rw [if_pos hpeek, quoted_yamlStr]
  rfl

/-- What a word's character is not. -/
def IsPlain (c : Char) : Prop :=
  isWhiteSpace c = false ∧ Cur.endsBare c = false ∧ Cur.endsKey c = false ∧ c ≠ '"' ∧ c ≠ '\x7b' ∧ c ≠ '[' ∧
    c ≠ '\n' ∧ c ≠ '\r'

instance (c : Char) : Decidable (IsPlain c) := inferInstanceAs (Decidable (_ ∧ _))

theorem isSafe_lt {c : Char} (h : isSafe c = true) : c.toNat < 128 := by
  unfold isSafe at h
  simp only [Bool.or_eq_true, decide_eq_true_eq] at h
  rcases h with (h | rfl) | rfl
  · exact isAlphanum_lt h
  · decide
  · decide

theorem isSafe_plain {c : Char} (h : isSafe c = true) : IsPlain c := by
  have hall : ∀ n < 128, isSafe (Char.ofNat n) = true → IsPlain (Char.ofNat n) := by decide
  have hc := hall c.toNat (isSafe_lt h)
  rw [Char.ofNat_toNat] at hc
  exact hc h

theorem SafeStem.trimmed {w : String} (h : SafeStem w) : Trimmed w.toList :=
  ⟨fun c hc => (isSafe_plain (h.2 c (List.mem_of_mem_head? hc))).1,
    fun c hc => (isSafe_plain (h.2 c (List.mem_of_mem_getLast? hc))).1⟩

theorem SafeStem.oneLine {w : String} (h : SafeStem w) : OneLine w.toList :=
  ⟨fun hm => absurd rfl (isSafe_plain (h.2 _ hm)).2.2.2.2.2.2.1,
    fun hm => absurd rfl (isSafe_plain (h.2 _ hm)).2.2.2.2.2.2.2⟩

/-- **A word reads as itself.** -/
theorem reads_word {w : String} (h : SafeStem w) : Reads D w.toList (.bare w) := by
  refine ⟨h.oneLine, h.1, h.trimmed, fun c hc => (isSafe_plain (h.2 c (List.mem_of_mem_head? hc))).2.1,
    fun rest hstop pos fuel hfuel => ?_⟩
  obtain ⟨fuel, rfl⟩ : ∃ f, fuel = f + 1 := ⟨fuel - 1, by omega⟩
  obtain ⟨c, l, hcl⟩ := List.exists_cons_of_ne_nil h.1
  have hc := isSafe_plain (h.2 c (hcl ▸ List.mem_cons_self))
  have hpeek : Cur.peek ⟨w.toList ++ rest, pos⟩ = some c := by rw [hcl]; rfl
  obtain ⟨htake, hdrop⟩ := @takeWhile_append_stop (fun c => !Cur.endsBare c) w.toList rest
    (fun c hc => by simp [(isSafe_plain (h.2 c hc)).2.1]) (fun c hc => by simp [hstop c hc])
  rw [Cur.value]
  simp only [skipWs_of_trimmed h.1 h.trimmed, hpeek, Option.some.injEq]
  rw [if_neg hc.2.2.2.1, if_neg hc.2.2.2.2.1, if_neg hc.2.2.2.2.2.1]
  simp only [Cur.bare, Cur.token, Cur.skipWhile, htake, hdrop, trim_eq_self h.trimmed, String.ofList_toList]

/-! ### Collections -/

/-- Each text after a `, `. -/
def commaTail (ts : List (List Char)) : List Char := ts.flatMap fun t => ',' :: ' ' :: t

theorem joinComma_cons (t : List Char) : ∀ ts : List (List Char), joinComma (t :: ts) = t ++ commaTail ts
  | [] => by simp [joinComma, commaTail]
  | u :: ts => by
    have ih := joinComma_cons u ts
    unfold joinComma at ih ⊢
    rw [List.intercalate_cons_cons, ih]
    simp [commaTail]

theorem flowSeq_skipWs (fuel start : ℕ) (items : List Value) {a b : Cur} (h : a.skipWs = b.skipWs) :
    Cur.flowSeq D fuel start items a = Cur.flowSeq D fuel start items b := by
  cases fuel with
  | zero => simp [Cur.flowSeq]
  | succ fuel => simp only [Cur.flowSeq, h]

theorem flowSeq_close (fuel start : ℕ) (items : List Value) (rest : List Char) (pos : ℕ) :
    Cur.flowSeq D (fuel + 1) start items ⟨']' :: rest, pos⟩ = some (.ok (.seq items, ⟨rest, pos + 1⟩)) := by
  have hws : Cur.skipWs ⟨']' :: rest, pos⟩ = ⟨']' :: rest, pos⟩ := skipWhile_of_head (by simp [Cur.isBlank])
  simp [Cur.flowSeq, hws, Cur.peek, Cur.advance]

theorem flowSeq_comma (fuel start : ℕ) (items : List Value) (rest : List Char) (pos : ℕ) :
    Cur.flowSeq D (fuel + 1) start items ⟨',' :: ' ' :: rest, pos⟩ =
      Cur.flowSeq D fuel start items ⟨rest, pos + 2⟩ := by
  have hws : Cur.skipWs ⟨',' :: ' ' :: rest, pos⟩ = ⟨',' :: ' ' :: rest, pos⟩ :=
    skipWhile_of_head (by simp [Cur.isBlank])
  have hpeek : Cur.peek ⟨',' :: ' ' :: rest, pos⟩ = some ',' := rfl
  rw [Cur.flowSeq]
  simp only [hws, hpeek]
  rw [if_neg (by decide), if_pos trivial]
  exact flowSeq_skipWs _ _ _ (skipWs_blank rest (pos + 1))

/-- One item. -/
theorem flowSeq_item {t : List Char} {v : Value} (h : Reads D t v) {rest : List Char} (hstop : Stops rest)
    {fuel : ℕ} (hfuel : 2 * t.length + 1 ≤ fuel) (start : ℕ) (items : List Value) (pos : ℕ) :
    Cur.flowSeq D (fuel + 1) start items ⟨t ++ rest, pos⟩ =
      Cur.flowSeq D fuel start (items ++ [v]) ⟨rest, pos + t.length⟩ := by
  obtain ⟨c, l, hcl⟩ := List.exists_cons_of_ne_nil h.ne_nil
  have hc := h.head c (by rw [hcl]; rfl)
  have hclose : c ≠ ']' := fun he => by simp [he, Cur.endsBare] at hc
  have hcomma : c ≠ ',' := fun he => by simp [he, Cur.endsBare] at hc
  have hpeek : Cur.peek ⟨t ++ rest, pos⟩ = some c := by rw [hcl]; rfl
  have hmoved : pos + t.length ≠ pos := by rw [hcl, List.length_cons]; omega
  rw [Cur.flowSeq]
  simp only [skipWs_of_trimmed h.ne_nil h.trimmed, hpeek]
  rw [if_neg hclose, if_neg hcomma, h.reads rest hstop pos fuel hfuel]
  simp only
  rw [if_neg hmoved]

theorem stops_commaTail (ts : List (List Char)) {c : Char} (hc : Cur.endsBare c = true) (rest : List Char) :
    Stops (commaTail ts ++ c :: rest) := by
  cases ts with
  | nil =>
    intro d hd
    obtain rfl : c = d := by simpa [commaTail] using hd
    exact hc
  | cons t ts =>
    intro d hd
    obtain rfl : ',' = d := by simpa [commaTail] using hd
    rfl

/-- The items after the first. -/
theorem flowSeq_commaTail (start : ℕ) (rest : List Char) : ∀ {ts : List (List Char)} {vs : List Value},
    List.Forall₂ (Reads D) ts vs → ∀ (items : List Value) (pos fuel : ℕ), 2 * (commaTail ts).length + 4 ≤ fuel →
    Cur.flowSeq D fuel start items ⟨commaTail ts ++ ']' :: rest, pos⟩ =
      some (.ok (.seq (items ++ vs), ⟨rest, pos + (commaTail ts).length + 1⟩))
  | _, _, .nil, items, pos, fuel, hfuel => by
    obtain ⟨fuel, rfl⟩ : ∃ f, fuel = f + 1 := ⟨fuel - 1, by omega⟩
    rw [List.append_nil]
    exact flowSeq_close fuel start items rest pos
  | t :: ts, v :: vs, .cons h hs, items, pos, fuel, hfuel => by
    have hlen : (commaTail (t :: ts)).length = 2 + t.length + (commaTail ts).length := by
      simp [commaTail]
      omega
    obtain ⟨fuel, rfl⟩ : ∃ f, fuel = f + 2 := ⟨fuel - 2, by omega⟩
    have hsplit : commaTail (t :: ts) ++ ']' :: rest = ',' :: ' ' :: (t ++ (commaTail ts ++ ']' :: rest)) := by
      simp [commaTail]
    rw [hsplit, flowSeq_comma, flowSeq_item h (stops_commaTail ts rfl rest) (by omega),
      flowSeq_commaTail start rest hs _ _ _ (by omega), hlen]
    simp [Nat.add_assoc]

theorem oneLine_nil : OneLine [] := ⟨List.not_mem_nil, List.not_mem_nil⟩

theorem oneLine_append {a b : List Char} (ha : OneLine a) (hb : OneLine b) : OneLine (a ++ b) :=
  ⟨fun h => (List.mem_append.mp h).elim ha.1 hb.1, fun h => (List.mem_append.mp h).elim ha.2 hb.2⟩

theorem oneLine_joinComma : ∀ {ts : List (List Char)}, (∀ t ∈ ts, OneLine t) → OneLine (joinComma ts)
  | [], _ => oneLine_nil
  | t :: ts, h => by
    rw [joinComma_cons]
    refine oneLine_append (h t List.mem_cons_self) ?_
    have htail : ∀ u ∈ ts, OneLine u := fun u hu => h u (List.mem_cons_of_mem _ hu)
    clear h
    induction ts with
    | nil => exact oneLine_nil
    | cons u ts ih =>
      show OneLine ([',', ' '] ++ u ++ commaTail ts)
      refine oneLine_append (oneLine_append (by unfold OneLine; decide) (htail u List.mem_cons_self)) ?_
      exact ih fun x hx => htail x (List.mem_cons_of_mem _ hx)

/-- A text between two brackets. -/
theorem trimmed_brackets {o c : Char} (ho : isWhiteSpace o = false) (hc : isWhiteSpace c = false) (t : List Char) :
    Trimmed (o :: (t ++ [c])) := by
  refine ⟨fun d hd => ?_, fun d hd => ?_⟩
  · obtain rfl : o = d := by simpa using hd
    exact ho
  · obtain rfl : c = d := by simpa [List.getLast?_cons] using hd
    exact hc

/-- The items of a sequence, first and all. -/
theorem flowSeq_joinComma (start : ℕ) (rest : List Char) {ts : List (List Char)} {vs : List Value}
    (h : List.Forall₂ (Reads D) ts vs) (pos fuel : ℕ) (hfuel : 2 * (joinComma ts).length + 4 ≤ fuel) :
    Cur.flowSeq D fuel start [] ⟨joinComma ts ++ ']' :: rest, pos⟩ =
      some (.ok (.seq vs, ⟨rest, pos + (joinComma ts).length + 1⟩)) := by
  obtain ⟨fuel, rfl⟩ : ∃ f, fuel = f + 1 := ⟨fuel - 1, by omega⟩
  cases h with
  | nil => exact flowSeq_close fuel start [] rest pos
  | @cons t v ts vs h hs =>
    have hlen := h.ne_nil
    rw [← List.length_pos_iff] at hlen
    rw [joinComma_cons] at hfuel ⊢
    rw [List.length_append] at hfuel ⊢
    rw [List.append_assoc, flowSeq_item h (stops_commaTail ts rfl rest) (by omega),
      flowSeq_commaTail start rest hs _ _ _ (by omega)]
    simp [Nat.add_assoc]

/-- **A sequence reads as its items, in order.** -/
theorem reads_seq {ts : List (List Char)} {vs : List Value} (h : List.Forall₂ (Reads D) ts vs) :
    Reads D ('[' :: (joinComma ts ++ [']'])) (.seq vs) := by
  have hends : Trimmed ('[' :: (joinComma ts ++ [']'])) := trimmed_brackets rfl rfl _
  have hall : ∀ t ∈ ts, OneLine t := by
    clear hends
    induction h with
    | nil => simp
    | cons h _ ih => exact List.forall_mem_cons.mpr ⟨h.oneLine, ih⟩
  refine ⟨?_, List.cons_ne_nil _ _, hends, by simp [Cur.endsBare], fun rest _ pos fuel hfuel => ?_⟩
  · exact oneLine_append (a := ['[']) (by unfold OneLine; decide)
      (oneLine_append (oneLine_joinComma hall) (by unfold OneLine; decide))
  · obtain ⟨fuel, rfl⟩ : ∃ f, fuel = f + 1 := ⟨fuel - 1, by omega⟩
    have hpeek : Cur.peek ⟨'[' :: (joinComma ts ++ [']']) ++ rest, pos⟩ = some '[' := rfl
    rw [Cur.value]
    simp only [skipWs_of_trimmed (List.cons_ne_nil _ _) hends, hpeek, Option.some.injEq]
    rw [if_neg (by decide), if_neg (by decide), if_pos trivial]
    simp only [List.length_cons, List.length_append, List.length_nil] at hfuel
    have hitems := flowSeq_joinComma pos rest h (pos + 1) fuel (by omega)
    simp only [Cur.advance, List.cons_append, List.append_assoc, List.nil_append, List.tail_cons, hitems,
      List.length_cons, List.length_append, List.length_nil]
    congr 4
    omega

/-- A key's text: the scanner reads the key and stops at the colon. -/
structure ReadsKey (kt : List Char) (k : String) : Prop where
  oneLine : OneLine kt
  ne_nil : kt ≠ []
  trimmed : Trimmed kt
  head : ∀ c ∈ kt.head?, Cur.endsKey c = false
  reads : ∀ (rest : List Char) (pos : ℕ),
    Cur.key ⟨kt ++ ':' :: rest, pos⟩ = .ok (k, ⟨':' :: rest, pos + kt.length⟩)

theorem readsKey_yamlStr (s : String) : ReadsKey (yamlStr s) s := by
  refine ⟨oneLine_yamlStr s, by simp [yamlStr], trimmed_yamlStr s, by simp [yamlStr, Cur.endsKey], fun rest pos => ?_⟩
  have hpeek : Cur.peek ⟨yamlStr s ++ ':' :: rest, pos⟩ = some '"' := rfl
  rw [Cur.key, if_pos hpeek, quoted_yamlStr]

theorem readsKey_word {w : String} (h : SafeStem w) : ReadsKey w.toList w := by
  refine ⟨h.oneLine, h.1, h.trimmed, fun c hc => (isSafe_plain (h.2 c (List.mem_of_mem_head? hc))).2.2.1,
    fun rest pos => ?_⟩
  obtain ⟨c, l, hcl⟩ := List.exists_cons_of_ne_nil h.1
  have hc := isSafe_plain (h.2 c (hcl ▸ List.mem_cons_self))
  have hpeek : Cur.peek ⟨w.toList ++ ':' :: rest, pos⟩ = some c := by rw [hcl]; rfl
  obtain ⟨htake, hdrop⟩ := @takeWhile_append_stop (fun c => !Cur.endsKey c) w.toList (':' :: rest)
    (fun c hc => by simp [(isSafe_plain (h.2 c hc)).2.2.1]) (fun c hc => by
      obtain rfl : ':' = c := by simpa using hc
      rfl)
  rw [Cur.key, hpeek, if_neg (by simpa using hc.2.2.2.1)]
  simp only [Cur.token, Cur.skipWhile, htake, hdrop, trim_eq_self h.trimmed, String.ofList_toList]

/-- An entry of a mapping: how the key and the value are written, and what they
are. -/
structure Entry where
  keyText : List Char
  key : String
  text : List Char
  value : Value

/-- As the renderer writes it. -/
def Entry.written (e : Entry) : List Char := e.keyText ++ ':' :: ' ' :: e.text

/-- Key and value both read back. -/
def Entry.Reads (D : ReadEnv) (e : Entry) : Prop := ReadsKey e.keyText e.key ∧ Cases.Reads D e.text e.value

/-- What a mapping with the entry binds. -/
def Entry.binding (e : Entry) : String × Value := (e.key, e.value)

theorem flowMap_skipWs (fuel start : ℕ) (m : List (String × Value)) {a b : Cur} (h : a.skipWs = b.skipWs) :
    Cur.flowMap D fuel start m a = Cur.flowMap D fuel start m b := by
  cases fuel with
  | zero => simp [Cur.flowMap]
  | succ fuel => simp only [Cur.flowMap, h]

theorem flowMap_close (fuel start : ℕ) (m : List (String × Value)) (rest : List Char) (pos : ℕ) :
    Cur.flowMap D (fuel + 1) start m ⟨'\x7d' :: rest, pos⟩ = some (.ok (.map m, ⟨rest, pos + 1⟩)) := by
  have hws : Cur.skipWs ⟨'\x7d' :: rest, pos⟩ = ⟨'\x7d' :: rest, pos⟩ := skipWhile_of_head (by simp [Cur.isBlank])
  simp [Cur.flowMap, hws, Cur.peek, Cur.advance]

theorem flowMap_comma (fuel start : ℕ) (m : List (String × Value)) (rest : List Char) (pos : ℕ) :
    Cur.flowMap D (fuel + 1) start m ⟨',' :: ' ' :: rest, pos⟩ = Cur.flowMap D fuel start m ⟨rest, pos + 2⟩ := by
  have hws : Cur.skipWs ⟨',' :: ' ' :: rest, pos⟩ = ⟨',' :: ' ' :: rest, pos⟩ :=
    skipWhile_of_head (by simp [Cur.isBlank])
  have hpeek : Cur.peek ⟨',' :: ' ' :: rest, pos⟩ = some ',' := rfl
  rw [Cur.flowMap]
  simp only [hws, hpeek]
  rw [if_neg (by decide), if_pos trivial]
  exact flowMap_skipWs _ _ _ (skipWs_blank rest (pos + 1))

/-- One entry. -/
theorem flowMap_entry {e : Entry} (h : e.Reads D) {rest : List Char} (hstop : Stops rest) {fuel : ℕ}
    (hfuel : 2 * e.text.length + 1 ≤ fuel) (start : ℕ) (m : List (String × Value)) (pos : ℕ) :
    Cur.flowMap D (fuel + 1) start m ⟨e.written ++ rest, pos⟩ =
      Cur.flowMap D fuel start (insertKey e.key e.value m) ⟨rest, pos + e.written.length⟩ := by
  obtain ⟨hkey, hval⟩ := h
  obtain ⟨c, l, hcl⟩ := List.exists_cons_of_ne_nil hkey.ne_nil
  have hc := hkey.head c (by rw [hcl]; rfl)
  have hclose : c ≠ '\x7d' := fun he => by simp [he, Cur.endsKey] at hc
  have hcomma : c ≠ ',' := fun he => by simp [he, Cur.endsKey] at hc
  have hsplit : e.written ++ rest = e.keyText ++ ':' :: ' ' :: (e.text ++ rest) := by simp [Entry.written]
  have hpeek : Cur.peek ⟨e.keyText ++ ':' :: ' ' :: (e.text ++ rest), pos⟩ = some c := by rw [hcl]; rfl
  have hcolon : ∀ q, Cur.skipWs ⟨':' :: ' ' :: (e.text ++ rest), q⟩ = ⟨':' :: ' ' :: (e.text ++ rest), q⟩ :=
    fun q => skipWhile_of_head (by simp [Cur.isBlank])
  have hvalue := hval.reads rest hstop (pos + e.keyText.length + 2) fuel hfuel
  rw [value_skipWs D fuel (skipWs_blank (e.text ++ rest) (pos + e.keyText.length + 1)).symm] at hvalue
  have hlen : e.written.length = e.keyText.length + 2 + e.text.length := by simp [Entry.written]; omega
  rw [hsplit, hlen, Cur.flowMap]
  simp only [skipWs_of_trimmed hkey.ne_nil hkey.trimmed, hpeek]
  rw [if_neg hclose, if_neg hcomma, hkey.reads]
  simp only [hcolon]
  rw [if_neg (by simp [Cur.peek])]
  simp only [Cur.advance, List.tail_cons, hvalue]
  congr 2
  omega

/-- The entries after the first. -/
theorem flowMap_commaTail (start : ℕ) (rest : List Char) : ∀ {es : List Entry}, (∀ e ∈ es, e.Reads D) →
    ∀ (m : List (String × Value)) (pos fuel : ℕ), 2 * (commaTail (es.map Entry.written)).length + 4 ≤ fuel →
    Cur.flowMap D fuel start m ⟨commaTail (es.map Entry.written) ++ '\x7d' :: rest, pos⟩ =
      some (.ok (.map (bindAll m (es.map Entry.binding)),
        ⟨rest, pos + (commaTail (es.map Entry.written)).length + 1⟩))
  | [], _, m, pos, fuel, hfuel => by
    obtain ⟨fuel, rfl⟩ : ∃ f, fuel = f + 1 := ⟨fuel - 1, by omega⟩
    exact flowMap_close fuel start m rest pos
  | e :: es, h, m, pos, fuel, hfuel => by
    have hlen : (commaTail ((e :: es).map Entry.written)).length =
        2 + e.written.length + (commaTail (es.map Entry.written)).length := by
      simp [commaTail]
      omega
    have htext : e.text.length ≤ e.written.length := by simp [Entry.written]; omega
    obtain ⟨fuel, rfl⟩ : ∃ f, fuel = f + 2 := ⟨fuel - 2, by omega⟩
    have hsplit : commaTail ((e :: es).map Entry.written) ++ '\x7d' :: rest =
        ',' :: ' ' :: (e.written ++ (commaTail (es.map Entry.written) ++ '\x7d' :: rest)) := by
      simp [commaTail]
    rw [hsplit, flowMap_comma, flowMap_entry (h e List.mem_cons_self) (stops_commaTail _ rfl rest) (by omega),
      flowMap_commaTail start rest (fun x hx => h x (List.mem_cons_of_mem _ hx)) _ _ _ (by omega), hlen]
    simp [Nat.add_assoc, bindAll, Entry.binding]

/-- The entries of a mapping, first and all. -/
theorem flowMap_joinComma (start : ℕ) (rest : List Char) {es : List Entry} (h : ∀ e ∈ es, e.Reads D) (pos fuel : ℕ)
    (hfuel : 2 * (joinComma (es.map Entry.written)).length + 4 ≤ fuel) :
    Cur.flowMap D fuel start [] ⟨joinComma (es.map Entry.written) ++ '\x7d' :: rest, pos⟩ =
      some (.ok (.map (bindAll [] (es.map Entry.binding)),
        ⟨rest, pos + (joinComma (es.map Entry.written)).length + 1⟩)) := by
  obtain ⟨fuel, rfl⟩ : ∃ f, fuel = f + 1 := ⟨fuel - 1, by omega⟩
  cases es with
  | nil => exact flowMap_close fuel start [] rest pos
  | cons e es =>
    have htext : e.text.length + 1 ≤ e.written.length := by simp [Entry.written]; omega
    rw [List.map_cons, joinComma_cons] at hfuel ⊢
    rw [List.length_append] at hfuel ⊢
    rw [List.append_assoc, flowMap_entry (h e List.mem_cons_self) (stops_commaTail _ rfl rest) (by omega),
      flowMap_commaTail start rest (fun x hx => h x (List.mem_cons_of_mem _ hx)) _ _ _ (by omega)]
    simp [Nat.add_assoc, bindAll, Entry.binding]

theorem Entry.Reads.oneLine {e : Entry} (h : e.Reads D) : OneLine e.written :=
  oneLine_append h.1.oneLine (oneLine_append (a := [':', ' ']) (by unfold OneLine; decide) h.2.oneLine)

/-- **A mapping reads as its entries, bound in order.** -/
theorem reads_map {es : List Entry} (h : ∀ e ∈ es, e.Reads D) :
    Reads D ('\x7b' :: (joinComma (es.map Entry.written) ++ ['\x7d'])) (.map (bindAll [] (es.map Entry.binding))) := by
  have hends : Trimmed ('\x7b' :: (joinComma (es.map Entry.written) ++ ['\x7d'])) := trimmed_brackets rfl rfl _
  refine ⟨?_, List.cons_ne_nil _ _, hends, by simp [Cur.endsBare], fun rest _ pos fuel hfuel => ?_⟩
  · refine oneLine_append (a := ['\x7b']) (by unfold OneLine; decide) (oneLine_append ?_ (by unfold OneLine; decide))
    refine oneLine_joinComma fun t ht => ?_
    obtain ⟨e, he, rfl⟩ := List.mem_map.mp ht
    exact (h e he).oneLine
  · obtain ⟨fuel, rfl⟩ : ∃ f, fuel = f + 1 := ⟨fuel - 1, by omega⟩
    have hpeek : Cur.peek ⟨'\x7b' :: (joinComma (es.map Entry.written) ++ ['\x7d']) ++ rest, pos⟩ = some '\x7b' := rfl
    rw [Cur.value]
    simp only [skipWs_of_trimmed (List.cons_ne_nil _ _) hends, hpeek, Option.some.injEq]
    rw [if_neg (by decide), if_pos trivial]
    simp only [List.length_cons, List.length_append, List.length_nil] at hfuel
    have hentries := flowMap_joinComma pos rest h (pos + 1) fuel (by omega)
    simp only [Cur.advance, List.cons_append, List.append_assoc, List.nil_append, List.tail_cons, hentries,
      List.length_cons, List.length_append, List.length_nil]
    congr 4
    omega

/-! ### Lines -/

/-- An entry with a bare key. -/
def field (key : String) (text : List Char) (value : Value) : Entry := ⟨key.toList, key, text, value⟩

theorem reads_field {key : String} (hkey : SafeStem key) {t : List Char} {v : Value} (h : Reads D t v) :
    (field key t v).Reads D := ⟨readsKey_word hkey, h⟩

/-- A line of the block. -/
structure Entry.IsLine (D : ReadEnv) (e : Entry) : Prop where
  bareKey : e.keyText = e.key.toList
  safeKey : SafeStem e.key
  noDash : e.key.toList.head? ≠ some '-'
  value : Cases.Reads D e.text e.value

theorem Entry.IsLine.trimmed {e : Entry} (h : e.IsLine D) : Trimmed e.written := by
  refine ⟨fun c hc => h.safeKey.trimmed.1 c ?_, fun c hc => h.value.trimmed.2 c ?_⟩
  · obtain ⟨a, l, hal⟩ := List.exists_cons_of_ne_nil h.safeKey.1
    rw [Entry.written, h.bareKey, hal] at hc
    rw [hal]
    exact hc
  · rw [Entry.written, List.getLast?_append_of_ne_nil _ (List.cons_ne_nil _ _)] at hc
    rwa [List.getLast?_cons_of_ne_nil (List.cons_ne_nil _ _), List.getLast?_cons_of_ne_nil h.value.ne_nil] at hc

theorem Entry.IsLine.oneLine {e : Entry} (h : e.IsLine D) : OneLine e.written := by
  have hkey : e.keyText = e.key.toList := h.bareKey
  have hreads : e.Reads D := ⟨hkey ▸ readsKey_word h.safeKey, h.value⟩
  exact hreads.oneLine

theorem Entry.IsLine.split {e : Entry} (h : e.IsLine D) :
    splitOnce ':' (trim e.written) = some (e.key.toList, ' ' :: e.text) := by
  rw [trim_eq_self h.trimmed, Entry.written, h.bareKey]
  refine splitOnce_append _ fun hm => ?_
  have := (isSafe_plain (h.safeKey.2 _ hm)).2.2.1
  simp [Cur.endsKey] at this

/-- **The lines bind what they say.** -/
theorem readLines_written : ∀ {es : List Entry}, (∀ e ∈ es, e.IsLine D) → ∀ (n offset : ℕ) (top : List (String × Value)),
    readLines D n offset top (es.map Entry.written) = some (.ok (bindAll top (es.map Entry.binding)))
  | [], _, _, _, _ => rfl
  | e :: es, h, n, offset, top => by
    have he := h e List.mem_cons_self
    have hne : (trim e.written).isEmpty = false := by
      rw [trim_eq_self he.trimmed, Entry.written]
      simp
    have hread : ∀ pos, Cur.value D (fuelFor (' ' :: e.text)) ⟨' ' :: e.text, pos⟩ =
        some (.ok (e.value, ⟨[], pos + 1 + e.text.length⟩)) := by
      intro pos
      rw [value_skipWs D _ (skipWs_blank e.text pos)]
      have hval := he.value.reads [] (by simp [Stops]) (pos + 1) (fuelFor (' ' :: e.text))
        (by rw [fuelFor, List.length_cons]; omega)
      rwa [List.append_nil] at hval
    rw [List.map_cons, readLines]
    simp only [hne, Bool.false_eq_true, if_false, he.split, hread, trim_eq_self he.safeKey.trimmed,
      String.ofList_toList]
    exact readLines_written (fun x hx => h x (List.mem_cons_of_mem _ hx)) _ _ _

end Cases
end Logmon
