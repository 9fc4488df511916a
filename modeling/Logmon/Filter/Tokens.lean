/-
# The tokens of a filter

What `parse_filter` does with a whole text, as a statement about its fields
between commas: each that is not blank is read as a token, and the qualifiers
are what they read as, in order (`parseFilter_qualifiers_iff`). White space
around the text is of no consequence. No token yields a qualifier with more
commas in it than it has itself (`parseToken_commas`).

Key definitions: `commaFields`, `Qualifier.commas`.
Key theorems: `parseFilter_qualifiers_iff`, `parseToken_commas`.
-/
import Logmon.Filter.Parse
import Logmon.Lib.Quoted

namespace Logmon

open Lib

/-- The fields between the commas outside quotes. -/
abbrev commaFields (l : List Char) : Option (List (List Char)) := fields ',' '"' false l

/-- The loop over the characters finds the fields. -/
theorem splitOnCommas_eq : ∀ (l : List Char) (tokens : List (List Char)) (current : List Char) (inQuote : Bool),
    splitOnCommas l tokens current inQuote = match fields ',' '"' inQuote l with
      | none => .error .unclosedQuote
      | some fs => .ok (tokens ++ fs.modifyHead (current ++ ·))
  | [], tokens, current, inQuote => by
    cases inQuote <;> simp [splitOnCommas, fields]
  | c :: l, tokens, current, inQuote => by
    have hpush : ∀ q, splitOnCommas l tokens (current ++ [c]) q =
        match (fields ',' '"' q l).map fun fs => fs.modifyHead (c :: ·) with
        | none => .error .unclosedQuote
        | some fs => .ok (tokens ++ fs.modifyHead (current ++ ·)) := by
      intro q
      rw [splitOnCommas_eq l]
      cases hf : fields ',' '"' q l with
      | none => rfl
      | some fs =>
        obtain ⟨f, fs, rfl⟩ := List.exists_cons_of_ne_nil (fields_ne_nil hf)
        simp
    unfold splitOnCommas fields
    by_cases hq : c = '"'
    · rw [if_pos hq, if_pos hq, hpush]
    · rw [if_neg hq, if_neg hq]
      by_cases hs : c = ',' ∧ inQuote = false
      · rw [if_pos (by simpa using hs), if_pos hs, splitOnCommas_eq l]
        cases hf : fields ',' '"' inQuote l with
        | none => rfl
        | some fs =>
          obtain ⟨f, fs, rfl⟩ := List.exists_cons_of_ne_nil (fields_ne_nil hf)
          simp
      · rw [if_neg (by simpa using hs), if_neg hs, hpush]

/-- The tokens of the fields: trimmed, without the blank ones. -/
def tokensOf (fs : List (List Char)) : List (List Char) := (fs.map trim).filter fun t => !t.isEmpty

variable (env : ParseEnv)

theorem parseToken_trim (token : List Char) : parseToken env (trim token) = parseToken env token := by
  unfold parseToken
  rw [trim_trim]

/-- The loop over the tokens reads each of them, in order. -/
theorem parseTokens_iff : ∀ (fs : List (List Char)) (qs : List Qualifier),
    parseTokens env fs = .ok qs ↔ List.Forall₂ (fun t q => parseToken env t = .ok q) (tokensOf fs) qs
  | [], qs => by
    constructor
    · intro h
      obtain rfl := Except.ok.inj h
      exact .nil
    · intro h
      obtain rfl := List.forall₂_nil_left_iff.mp h
      rfl
  | f :: fs, qs => by
    unfold parseTokens
    by_cases hf : (trim f).isEmpty
    · have htokens : tokensOf (f :: fs) = tokensOf fs := by
        unfold tokensOf
        rw [List.map_cons, List.filter_cons_of_neg (by simpa using hf)]
      rw [if_pos hf, htokens, parseTokens_iff fs]
    · have htokens : tokensOf (f :: fs) = trim f :: tokensOf fs := by
        unfold tokensOf
        rw [List.map_cons, List.filter_cons_of_pos (by simpa using hf)]
      rw [if_neg hf, htokens, List.forall₂_cons_left_iff]
      constructor
      · intro h
        split at h
        · cases h
        · rename_i q hq
          split at h
          · cases h
          · rename_i rs hrs
            obtain rfl := Except.ok.inj h
            exact ⟨q, rs, hq, (parseTokens_iff fs rs).mp hrs, rfl⟩
      · rintro ⟨q, rs, hq, hrs, rfl⟩
        rw [hq, (parseTokens_iff fs rs).mpr hrs]

/-- White space is neither a comma nor a quote. -/
theorem white_plain {w : List Char} (h : ∀ c ∈ w, isWhiteSpace c = true) : ∀ c ∈ w, c ≠ ',' ∧ c ≠ '"' := by
  intro c hc
  have hw := h c hc
  constructor
  · rintro rfl
    revert hw
    decide
  · rintro rfl
    revert hw
    decide

theorem map_trim_modifyHead {a : List Char} (ha : ∀ c ∈ a, isWhiteSpace c = true) (fs : List (List Char)) :
    (fs.modifyHead (a ++ ·)).map trim = fs.map trim := by
  cases fs with
  | nil => rfl
  | cons f fs =>
    have := trim_append f ha (b := []) (by simp)
    rw [List.append_nil] at this
    rw [List.modifyHead_cons, List.map_cons, List.map_cons, this]

theorem map_trim_appendLast {b : List Char} (hb : ∀ c ∈ b, isWhiteSpace c = true) : ∀ fs : List (List Char),
    (appendLast b fs).map trim = fs.map trim
  | [] => rfl
  | [f] => by
    have := trim_append (a := []) f (by simp) hb
    rw [List.nil_append] at this
    rw [appendLast, List.map_singleton, List.map_singleton, this]
  | f :: g :: fs => by
    rw [appendLast, List.map_cons, map_trim_appendLast hb (g :: fs)]
    rfl

/-- The tokens of a text are those of the text without the white space around
it. -/
theorem commaFields_trim (l : List Char) : (commaFields (trim l)).map tokensOf = (commaFields l).map tokensOf := by
  obtain ⟨a, b, hl, ha, hb⟩ := exists_trim l
  conv_rhs => rw [hl]
  unfold commaFields
  rw [fields_plain_append (white_plain ha), fields_append_plain (white_plain hb), Option.map_map, Option.map_map]
  congr 1
  funext fs
  show tokensOf fs = tokensOf ((appendLast b fs).modifyHead (a ++ ·))
  unfold tokensOf
  rw [map_trim_modifyHead ha, map_trim_appendLast hb]

/-- The two loops, of a text and its tokens, read the fields. -/
theorem tokens_read_iff (l : List Char) (qs : List Qualifier) :
    (∃ tokens, splitOnCommas (trim l) [] [] false = .ok tokens ∧ parseTokens env tokens = .ok qs) ↔
      ∃ fs, commaFields l = some fs ∧ List.Forall₂ (fun t q => parseToken env t = .ok q) (tokensOf fs) qs := by
  have htrim := commaFields_trim l
  have hsplit : ∀ tokens, splitOnCommas (trim l) [] [] false = .ok tokens ↔ commaFields (trim l) = some tokens := by
    intro tokens
    rw [splitOnCommas_eq]
    unfold commaFields
    cases hf : fields ',' '"' false (trim l) with
    | none => simp
    | some fs =>
      have hid : fs.modifyHead (fun f => f) = fs := by cases fs <;> rfl
      simp [hid]
  constructor
  · rintro ⟨tokens, hs, hp⟩
    rw [(hsplit tokens).mp hs] at htrim
    obtain ⟨fs, hfs, htokens⟩ := Option.map_eq_some_iff.mp htrim.symm
    exact ⟨fs, hfs, htokens ▸ (parseTokens_iff env tokens qs).mp hp⟩
  · rintro ⟨fs, hfs, hp⟩
    rw [hfs] at htrim
    obtain ⟨tokens, hs, htokens⟩ := Option.map_eq_some_iff.mp htrim
    exact ⟨tokens, (hsplit tokens).mpr hs, (parseTokens_iff env tokens qs).mpr (htokens ▸ hp)⟩

/-- **What `parse_filter` takes a text for**: what its tokens read as, if that
is neither nothing nor of both kinds, and has one cursor at most. -/
theorem parseFilter_qualifiers_iff (text : String) (qs : List Qualifier) :
    parseFilter env text = .ok (.qualifiers qs) ↔
      (trim text.toList ≠ [] ∧ trim text.toList ≠ "ALL".toList ∧ trim text.toList ≠ "NONE".toList) ∧
      (∃ fs, commaFields text.toList = some fs ∧
        List.Forall₂ (fun t q => parseToken env t = .ok q) (tokensOf fs) qs) ∧
      qs ≠ [] ∧ (qs.any Qualifier.isSpan && qs.any Qualifier.isLog) = false ∧ qs.countP Qualifier.isCursor ≤ 1 := by
  rw [← tokens_read_iff]
  constructor
  · intro h
    unfold parseFilter at h
    dsimp only at h
    by_cases h1 : (trim text.toList).isEmpty
    · rw [if_pos h1] at h
      cases h
    by_cases h2 : trim text.toList = "ALL".toList
    · rw [if_neg h1, if_pos h2] at h
      cases h
    by_cases h3 : trim text.toList = "NONE".toList
    · rw [if_neg h1, if_neg h2, if_pos h3] at h
      cases h
    rw [if_neg h1, if_neg h2, if_neg h3] at h
    split at h
    · cases h
    · rename_i tokens hs
      split at h
      · cases h
      · rename_i rs hrs
        split_ifs at h with h4 h5 h6
        obtain rfl : rs = qs := by simpa using h
        refine ⟨⟨by simpa using h1, h2, h3⟩, ⟨tokens, hs, hrs⟩, by simpa using h4, ?_, Nat.le_of_not_lt h6⟩
        exact Bool.eq_false_of_not_eq_true h5
  · rintro ⟨⟨h1, h2, h3⟩, ⟨tokens, hs, hrs⟩, h4, h5, h6⟩
    unfold parseFilter
    dsimp only
    rw [if_neg (by simpa using h1), if_neg h2, if_neg h3, hs]
    dsimp only
    rw [hrs]
    dsimp only
    rw [if_neg (by simpa using h4), if_neg (by simp [h5]), if_neg (Nat.not_lt.mpr h6)]

/-! ### One token -/

/-- What a token of its own kind may begin with, in the order they are tried. -/
def starts : List String := ["l>=", "l<=", "l=", "d>=", "d<=", "b>=", "b<=", "c>=", "c<="]

/-- The text a quoted value stands for. -/
def unquote (l : List Char) : List Char := if isQuoted l then inside l else l

theorem parsePattern_substring_iff {l : List Char} {s : String} :
    parsePattern env l = .ok (.substring s) ↔ l.head? ≠ some '/' ∧ s = lowered env l := by
  cases l with
  | nil => exact ⟨fun h => ⟨by simp, by cases h; rfl⟩, fun h => by rw [h.2]; rfl⟩
  | cons c l =>
    by_cases hc : c = '/'
    · subst hc
      refine ⟨fun h => ?_, fun h => absurd rfl h.1⟩
      change parseRegex env l = _ at h
      unfold parseRegex at h
      dsimp only at h
      split at h
      · cases h
      · cases h
    · have hplain : parsePattern env (c :: l) = .ok (.substring (lowered env (c :: l))) := by
        unfold parsePattern
        split
        · rename_i heq
          exact absurd (List.cons.inj heq).1 hc
        · rfl
      rw [hplain]
      exact ⟨fun h => ⟨by simpa using hc, by cases h; rfl⟩, fun h => by rw [h.2]⟩

/-- A token read as a pattern begins with none of the starts, and the other
way round. -/
theorem parseToken_pattern_iff {token : List Char} {q : Qualifier}
    (hq : (∃ p, q = .barePattern p) ∨ ∃ sel p, q = .selectorPattern sel p) :
    parseToken env token = .ok q ↔
      (∀ s ∈ starts, afterStart s (trim token) = none) ∧ parsePlain env (trim token) = .ok q := by
  have hlevel : ∀ op rest, parseLevel env op rest ≠ .ok q := by
    intro op rest h
    obtain ⟨_, rfl⟩ := parseLevel_cases h
    simp at hq
  have hduration : ∀ op rest, parseDuration env op rest ≠ .ok q := by
    intro op rest h
    obtain ⟨_, _, -, rfl⟩ := parseDuration_cases h
    simp at hq
  have hnamed : ∀ (f : String → Qualifier) rest, (∀ name, q ≠ f name) → (parseName rest).map f ≠ .ok q := by
    intro f rest hf h
    obtain ⟨name, -, hname⟩ := parseNamed_cases h
    exact hf name hname
  have hbookmark : ∀ op name, q ≠ .bookmarkFilter op name := by
    rintro op name rfl
    simp at hq
  have hcursor : ∀ name, q ≠ .cursorFilter name := by
    rintro name rfl
    simp at hq
  unfold parseToken
  dsimp only
  constructor
  · intro h
    split at h
    · exact absurd h (hlevel _ _)
    · exact absurd h (hlevel _ _)
    · exact absurd h (hlevel _ _)
    · rename_i h1 h2 h3
      split at h
      · exact absurd h (hduration _ _)
      · exact absurd h (hduration _ _)
      · rename_i h4 h5
        split at h
        · exact absurd h (hnamed _ _ (hbookmark _))
        · exact absurd h (hnamed _ _ (hbookmark _))
        · exact absurd h (hnamed _ _ hcursor)
        · rename_i h6 h7 h8
          split_ifs at h with h9
          have h9' : afterStart "c<=" (trim token) = none := by simpa using h9
          exact ⟨by simp [starts, h1, h2, h3, h4, h5, h6, h7, h8, h9'], h⟩
  · rintro ⟨hstarts, h⟩
    simp only [starts, List.forall_mem_cons] at hstarts
    obtain ⟨h1, h2, h3, h4, h5, h6, h7, h8, h9, -⟩ := hstarts
    rw [h1, h2, h3, h4, h5, h6, h7, h8, h9]
    simpa using h

/-- A token read with a selector is cut at its first `=`. -/
theorem parsePlain_selector_iff {token : List Char} {sel : Selector} {p : Pattern} :
    parsePlain env token = .ok (.selectorPattern sel p) ↔
      isQuoted token = false ∧ token.head? ≠ some '/' ∧ ∃ left right, splitOnce '=' token = some (left, right) ∧
        trim left ≠ [] ∧ ((trim left).getLast? ≠ some '>' ∧ (trim left).getLast? ≠ some '<') ∧
        parseSelector (String.ofList (trim left)) = sel ∧ parsePattern env (unquote (trim right)) = .ok p := by
  unfold parsePlain
  by_cases hquoted : isQuoted token
  · rw [if_pos hquoted]
    exact ⟨(fun h => by cases h), fun h => absurd hquoted (by simp [h.1])⟩
  rw [if_neg hquoted]
  by_cases hslash : token.head? = some '/'
  · rw [if_pos hslash]
    refine ⟨fun h => ?_, fun h => absurd hslash h.2.1⟩
    split at h <;> cases h
  rw [if_neg hslash]
  unfold parseSelected
  cases hs : splitOnce '=' token with
  | none => exact ⟨(fun h => by cases h), fun h => by simp at h⟩
  | some cut =>
    obtain ⟨left, right⟩ := cut
    dsimp only
    by_cases hempty : (trim left).isEmpty
    · rw [if_pos hempty]
      refine ⟨(fun h => by cases h), fun h => ?_⟩
      obtain ⟨-, -, l, r, heq, hne, -⟩ := h
      obtain ⟨rfl, rfl⟩ := Prod.mk.inj (Option.some.inj heq)
      exact absurd (List.isEmpty_iff.mp hempty) hne
    rw [if_neg hempty]
    by_cases hop : (trim left).getLast? = some '>' ∨ (trim left).getLast? = some '<'
    · rw [if_pos hop]
      refine ⟨(fun h => by cases h), fun h => ?_⟩
      obtain ⟨-, -, l, r, heq, -, hne, -⟩ := h
      obtain ⟨rfl, rfl⟩ := Prod.mk.inj (Option.some.inj heq)
      exact absurd hop (not_or.mpr hne)
    rw [if_neg hop]
    have hunquote : (if isQuoted (trim right) then inside (trim right) else trim right) = unquote (trim right) := rfl
    rw [hunquote]
    cases hp : parsePattern env (unquote (trim right)) with
    | error e =>
      refine ⟨(fun h => by cases h), ?_⟩
      rintro ⟨-, -, l, r, heq, -, -, -, hp'⟩
      obtain ⟨rfl, rfl⟩ := Prod.mk.inj (Option.some.inj heq)
      rw [hp] at hp'
      cases hp'
    | ok pattern =>
      constructor
      · intro h
        cases h
        exact ⟨by simpa using hquoted, hslash, left, right, rfl, by simpa using hempty, not_or.mp hop, rfl, hp⟩
      · rintro ⟨-, -, l, r, heq, -, -, rfl, hp'⟩
        obtain ⟨rfl, rfl⟩ := Prod.mk.inj (Option.some.inj heq)
        obtain rfl := Except.ok.inj (hp.symm.trans hp')
        rfl

/-- A token read as a bare substring is quoted, or has no selector. -/
theorem parsePlain_substring_iff {token : List Char} {s : String} :
    parsePlain env token = .ok (.barePattern (.substring s)) ↔
      (isQuoted token = true ∧ s = lowered env (inside token)) ∨
        isQuoted token = false ∧ token.head? ≠ some '/' ∧ s = lowered env token ∧
          ∀ left right, splitOnce '=' token = some (left, right) → trim left = [] := by
  unfold parsePlain
  by_cases hquoted : isQuoted token
  · rw [if_pos hquoted]
    constructor
    · intro h
      exact .inl ⟨hquoted, by simpa using h.symm⟩
    · rintro (⟨-, rfl⟩ | ⟨hq, -⟩)
      · rfl
      · exact absurd hquoted (by simp [hq])
  have hunquoted : isQuoted token = false := by simpa using hquoted
  rw [if_neg hquoted]
  by_cases hslash : token.head? = some '/'
  · rw [if_pos hslash]
    constructor
    · intro h
      split at h
      · cases h
      · rename_i p hp
        obtain rfl : p = .substring s := by simpa using h
        exact absurd hslash ((parsePattern_substring_iff env).mp hp).1
    · rintro (⟨hq, -⟩ | ⟨-, hne, -⟩)
      · exact absurd hq hquoted
      · exact absurd hslash hne
  rw [if_neg hslash]
  unfold parseSelected
  cases hs : splitOnce '=' token with
  | none =>
    constructor
    · intro h
      exact .inr ⟨hunquoted, hslash, by simpa using h.symm, fun l r h => (nomatch h)⟩
    · rintro (⟨hq, -⟩ | ⟨-, -, rfl, -⟩)
      · exact absurd hq hquoted
      · rfl
  | some cut =>
    obtain ⟨left, right⟩ := cut
    dsimp only
    by_cases hempty : (trim left).isEmpty
    · rw [if_pos hempty]
      constructor
      · intro h
        refine .inr ⟨hunquoted, hslash, by simpa using h.symm, fun l r heq => ?_⟩
        obtain ⟨rfl, rfl⟩ := Prod.mk.inj (Option.some.inj heq)
        exact List.isEmpty_iff.mp hempty
      · rintro (⟨hq, -⟩ | ⟨-, -, rfl, -⟩)
        · exact absurd hq hquoted
        · rfl
    · rw [if_neg hempty]
      constructor
      · intro h
        split_ifs at h
        all_goals
          split at h
          · cases h
          · cases h
      · rintro (⟨hq, -⟩ | ⟨-, -, -, hblank⟩)
        · exact absurd hq hquoted
        · exact absurd (hblank left right rfl) (by simpa using hempty)

/-! ### Commas -/

/-- What parsing needs of the standard library's case mapping and number
syntax. -/
structure ParseEnv.Documented (env : ParseEnv) : Prop where
  /-- White space, commas, quotes and backslashes have no case. -/
  lower_count : ∀ (s : String) (c : Char), isWhiteSpace c = true ∨ c ∈ [',', '"', '\\'] →
    (env.toLowercase s).toList.count c = s.toList.count c
  upper_level : ∀ name ∈ ["ERROR", "WARN", "INFO", "DEBUG", "TRACE"], env.toUppercase name = name
  parse_decimal : ∀ n : ℕ, n < 2 ^ 32 → env.parseF64 (toString n) = some (.finite n)

def Pattern.commas : Pattern → ℕ
  | .substring s => s.toList.count ','
  | .regex source _ => source.toList.count ','

/-- The commas in the texts of a qualifier. -/
def Qualifier.commas : Qualifier → ℕ
  | .barePattern p => p.commas
  | .selectorPattern (.additionalField name) p => name.toList.count ',' + p.commas
  | .selectorPattern _ p => p.commas
  | _ => 0

variable {env}

theorem lowered_commas (henv : env.Documented) (l : List Char) : (lowered env l).toList.count ',' = l.count ',' := by
  unfold lowered
  rw [henv.lower_count _ _ (.inr (by simp)), String.toList_ofList]

theorem regexParts_sublist (inner : List Char) : (regexParts inner).1.Sublist inner := by
  unfold regexParts
  split_ifs
  · have h := ((List.drop_suffix 1 _).trans (List.dropWhile_suffix (· ≠ '/') (l := inner.reverse))).reverse
    rw [List.reverse_reverse] at h
    exact h.sublist
  · exact List.Sublist.refl inner

theorem PatternOf.commas_le (henv : env.Documented) {l : List Char} {p : Pattern} (h : PatternOf env l p) :
    p.commas ≤ l.count ',' := by
  obtain ⟨k, hk, rfl | hp⟩ := h
  · exact (lowered_commas henv k).le.trans (hk.count_le _)
  · refine le_trans ?_ (hk.count_le ',')
    unfold parsePattern at hp
    split at hp
    · rename_i inner
      unfold parseRegex at hp
      dsimp only at hp
      split at hp
      · cases hp
      · obtain rfl := Except.ok.inj hp
        show (String.ofList _).toList.count ',' ≤ _
        rw [String.toList_ofList]
        exact ((regexParts_sublist inner).trans (List.sublist_cons_self _ _)).count_le _
    · obtain rfl := Except.ok.inj hp
      exact (lowered_commas henv k).le

/-- A selector is one of the parser's own table, or the name of an additional
field. -/
theorem parseSelector_cases (s : String) :
    (s ∉ ["m", "fm", "mfm", "h", "fa", "fi", "ln", "sn", "sv", "st", "sk"] ∧ parseSelector s = .additionalField s) ∨
      s ∈ ["m", "fm", "mfm", "h", "fa", "fi", "ln", "sn", "sv", "st", "sk"] ∧
        ∀ name, parseSelector s ≠ .additionalField name := by
  by_cases hs : s ∈ ["m", "fm", "mfm", "h", "fa", "fi", "ln", "sn", "sv", "st", "sk"]
  · have hall : ∀ k ∈ ["m", "fm", "mfm", "h", "fa", "fi", "ln", "sn", "sv", "st", "sk"], ∀ name,
        parseSelector k ≠ .additionalField name := by
      simp [parseSelector]
    exact .inr ⟨hs, hall s hs⟩
  · refine .inl ⟨hs, ?_⟩
    obtain ⟨h1, h2, h3, h4, h5, h6, h7, h8, h9, h10, h11⟩ : s ≠ "m" ∧ s ≠ "fm" ∧ s ≠ "mfm" ∧ s ≠ "h" ∧ s ≠ "fa" ∧
        s ≠ "fi" ∧ s ≠ "ln" ∧ s ≠ "sn" ∧ s ≠ "sv" ∧ s ≠ "st" ∧ s ≠ "sk" := by
      simpa using hs
    rw [parseSelector, if_neg h1, if_neg h2, if_neg h3, if_neg h4, if_neg h5, if_neg h6, if_neg h7, if_neg h8,
      if_neg h9, if_neg h10, if_neg h11]

theorem selector_commas (name : String) (p : Pattern) :
    (Qualifier.selectorPattern (parseSelector name) p).commas ≤ name.toList.count ',' + p.commas := by
  rcases parseSelector_cases name with ⟨-, h⟩ | ⟨-, h⟩
  · rw [h]
    exact Nat.le_refl _
  · generalize parseSelector name = sel at h
    cases sel with
    | additionalField n => exact absurd rfl (h n)
    | _ => exact Nat.le_add_left _ _

/-- **A token has the commas of its qualifier**, and may have more. -/
theorem parseToken_commas (henv : env.Documented) {token : List Char} {q : Qualifier}
    (h : parseToken env token = .ok q) : q.commas ≤ token.count ',' := by
  obtain ⟨_, _, rfl⟩ | ⟨_, _, _, -, rfl⟩ | ⟨_, _, -, rfl⟩ | ⟨_, -, rfl⟩ | h := parseToken_cases h
  · exact Nat.zero_le _
  · exact Nat.zero_le _
  · exact Nat.zero_le _
  · exact Nat.zero_le _
  · have htoken := (trim_sublist token).count_le ','
    obtain ⟨p, rfl, hp⟩ | ⟨left, right, p, hs, rfl, hp⟩ := parsePlain_cases h
    · exact (hp.commas_le henv).trans htoken
    · obtain ⟨hsplit, -⟩ := splitOnce_eq hs
      have hpattern := hp.commas_le henv
      have hselector := selector_commas (String.ofList (trim left)) p
      have hleft := (trim_sublist left).count_le ','
      rw [String.toList_ofList] at hselector
      rw [hsplit, List.count_append, List.count_cons_of_ne (by decide)] at htoken
      omega

end Logmon
