/-
# What one call of the filter builder is read as

The text of each call, by itself, against the parser of one token. A value
after a selector is read back as the text it was made of exactly when that
text survives (`text_reads_iff`), a bare pattern likewise
(`parseToken_pattern`), a field of its own when its name does as well
(`parseToken_field_iff`); a regex always (`regex_reads`).

Key definitions: `FilterCall.rendered`.
Key theorems: `text_reads_iff`, `regex_reads`, `call_reads_iff`.
-/
import Logmon.Filter.Keyed
import Logmon.Sdk.Filter

namespace Logmon
namespace Sdk

open Lib

variable {env : ParseEnv}

/-- The text of a call. -/
def FilterCall.rendered (c : FilterCall) : String := (Filter.builder.call c).qualifiers.headD ""

theorem call_qualifiers (b : FilterBuilder) (c : FilterCall) :
    (b.call c).qualifiers = b.qualifiers ++ [c.rendered] := by
  cases c with
  | text selector sub => cases selector <;> rfl
  | textRegex selector r ci => cases selector <;> rfl
  | _ => rfl

/-! ### Texts -/

theorem esc_plain {s : String} (h : ',' ∉ s.toList ∧ '"' ∉ s.toList) : esc s = s := by
  unfold esc
  rw [if_neg]
  simpa using h

theorem esc_quoted {s : String} (h : ',' ∈ s.toList ∨ '"' ∈ s.toList) :
    (esc s).toList = '"' :: (escaped s.toList ++ ['"']) := by
  unfold esc
  rw [if_pos (by simpa using h), String.toList_ofList]

theorem escaped_eq_self {l : List Char} (h : '"' ∉ l) : escaped l = l := by
  unfold escaped
  induction l with
  | nil => rfl
  | cons c l ih =>
    obtain ⟨hc, hl⟩ := not_or.mp (mt List.mem_cons.mpr h)
    rw [List.flatMap_cons, if_neg (Ne.symm hc), ih hl]
    rfl

/-- Each quote is one backslash more. -/
theorem count_escaped (l : List Char) : (escaped l).count '\\' = l.count '\\' + l.count '"' := by
  unfold escaped
  induction l with
  | nil => rfl
  | cons c l ih =>
    rw [List.flatMap_cons, List.count_append, ih, List.count_cons, List.count_cons]
    by_cases hc : c = '"'
    · subst hc
      simp
      omega
    · rw [if_neg hc]
      simp [List.count_cons, hc]
      omega

theorem head?_escaped {l : List Char} : (escaped l).head? = some '/' ↔ l.head? = some '/' := by
  unfold escaped
  cases l with
  | nil => rfl
  | cons c l =>
    rw [List.flatMap_cons]
    by_cases hc : c = '"'
    · subst hc
      simp
    · rw [if_neg hc]
      rfl

theorem lowered_escaped_iff (henv : env.Documented) {l : List Char} :
    lowered env l = lowered env (escaped l) ↔ '"' ∉ l := by
  constructor
  · intro h hmem
    have hcount := congrArg (fun s : String => s.toList.count '\\') h
    simp only [lowered] at hcount
    rw [henv.lower_count _ _ (.inr (by simp)), henv.lower_count _ _ (.inr (by simp)), String.toList_ofList,
      String.toList_ofList, count_escaped] at hcount
    have := List.count_pos_iff.mpr hmem
    omega
  · intro h
    rw [escaped_eq_self h]

/-- Trimming is seen in what a text is lowercased to. -/
theorem lowered_trim_iff (henv : env.Documented) {l : List Char} : lowered env l = lowered env (trim l) ↔ trim l = l := by
  refine ⟨fun h => ?_, fun h => by rw [h]⟩
  obtain ⟨a, b, hl, ha, hb⟩ := exists_trim l
  have hcount : ∀ c, isWhiteSpace c = true → a.count c + b.count c = 0 := by
    intro c hc
    have hcounts := congrArg (fun s : String => s.toList.count c) h
    simp only [lowered] at hcounts
    rw [henv.lower_count _ _ (.inl hc), henv.lower_count _ _ (.inl hc), String.toList_ofList,
      String.toList_ofList] at hcounts
    have hwhole := congrArg (List.count c) hl
    rw [List.count_append, List.count_append] at hwhole
    omega
  have hnil : ∀ w : List Char, (∀ c ∈ w, isWhiteSpace c = true) → (∀ c, isWhiteSpace c = true → w.count c = 0) →
      w = [] := by
    intro w hw hzero
    cases w with
    | nil => rfl
    | cons c w =>
      have := hzero c (hw c List.mem_cons_self)
      simp at this
  have ha' : a = [] := hnil a ha fun c hc => by have := hcount c hc; omega
  have hb' : b = [] := hnil b hb fun c hc => by have := hcount c hc; omega
  rw [ha', hb', List.nil_append, List.append_nil] at hl
  exact hl.symm

/-- **A value after a selector** is read back when its text survives. -/
theorem text_reads_iff (henv : env.Documented) (s : String) :
    parsePattern env (unquote (trim (esc s).toList)) = .ok (askedText env s) ↔ TextSurvives s.toList := by
  have hasked : askedText env s = .substring (lowered env s.toList) := by
    unfold askedText lowered
    rw [String.ofList_toList]
  rw [hasked, parsePattern_substring_iff]
  unfold TextSurvives
  by_cases hq : ',' ∈ s.toList ∨ '"' ∈ s.toList
  · have hun : unquote (trim (esc s).toList) = escaped s.toList := by
      unfold unquote
      rw [esc_quoted hq, trim_wrap, if_pos (isQuoted_wrap _), inside_wrap]
    rw [hun, ne_eq, head?_escaped, lowered_escaped_iff henv]
    constructor
    · rintro ⟨hhead, hquote⟩
      exact ⟨hquote, hhead, .inl (hq.resolve_right hquote)⟩
    · rintro ⟨hquote, hhead, -⟩
      exact ⟨hhead, hquote⟩
  · obtain ⟨hcomma, hquote⟩ := not_or.mp hq
    have hun : unquote (trim (esc s).toList) = trim s.toList := by
      unfold unquote
      rw [esc_plain ⟨hcomma, hquote⟩, if_neg]
      intro hquoted
      have hmem : '"' ∈ trim s.toList := by
        have hhead : (trim s.toList).head? = some '"' := by
          simp [isQuoted] at hquoted
          exact hquoted.1.1
        exact List.mem_of_mem_head? hhead
      exact hquote ((trim_sublist _).subset hmem)
    rw [hun, lowered_trim_iff henv]
    constructor
    · rintro ⟨hhead, htrim⟩
      rw [htrim] at hhead
      exact ⟨hquote, hhead, .inr htrim⟩
    · rintro ⟨-, hhead, htrim⟩
      have htrim' := htrim.resolve_left hcomma
      rw [htrim']
      exact ⟨hhead, rfl⟩

/-! ### Regexes -/

theorem regexLit_toList (r : String) (ci : Bool) :
    (regexLit r ci).toList = '/' :: (regexBody r ++ '/' :: if ci then ['i'] else []) := by
  unfold regexLit
  cases ci <;> simp [String.toList_append]

theorem regexParts_append (body : List Char) {flags : List Char} (h : '/' ∉ flags) :
    regexParts (body ++ '/' :: flags) = (body, flags.contains 'i') := by
  have hstop : (flags.reverse ++ '/' :: body.reverse).takeWhile (· ≠ '/') = flags.reverse ∧
      (flags.reverse ++ '/' :: body.reverse).dropWhile (· ≠ '/') = '/' :: body.reverse := by
    refine takeWhile_append_stop (fun c hc => ?_) (by simp)
    have : c ≠ '/' := fun he => h (he ▸ List.mem_reverse.mp hc)
    simpa using this
  have hreverse : (body ++ '/' :: flags).reverse = flags.reverse ++ '/' :: body.reverse := by simp
  unfold regexParts
  rw [if_pos (by simp), hreverse, hstop.1, hstop.2]
  simp

/-- **A regex is read back** wherever it stands as a pattern. -/
theorem regex_reads {r : String} {ci : Bool} (h : Compiles env r ci) :
    parsePattern env (regexLit r ci).toList = .ok (askedRegex r ci) := by
  have hparts : regexParts (regexBody r ++ '/' :: if ci then ['i'] else []) = (regexBody r, ci) := by
    rw [regexParts_append _ (by cases ci <;> simp)]
    cases ci <;> simp
  rw [regexLit_toList]
  show parseRegex env _ = _
  unfold parseRegex
  rw [hparts]
  dsimp only
  rw [show env.regexError _ = none from h]
  rfl

theorem trim_regexLit (r : String) (ci : Bool) : trim (regexLit r ci).toList = (regexLit r ci).toList := by
  rw [regexLit_toList]
  refine trim_eq_self ⟨fun c hc => ?_, fun c hc => ?_⟩
  · obtain rfl : '/' = c := by simpa using hc
    decide
  · rw [← List.cons_append, List.getLast?_append] at hc
    cases ci with
    | false =>
      obtain rfl : '/' = c := by simpa using hc
      decide
    | true =>
      obtain rfl : 'i' = c := by simpa using hc
      decide

theorem isQuoted_regexLit (r : String) (ci : Bool) : isQuoted (regexLit r ci).toList = false :=
  not_isQuoted (.inl (by rw [regexLit_toList]; simp))

/-! ### Values after a name -/

theorem parseSelector_additional_iff {s name : String} :
    parseSelector s = .additionalField name ↔ s = name ∧ s ∉ selectorNames := by
  rcases parseSelector_cases s with ⟨hs, h⟩ | ⟨hs, h⟩
  · rw [h]
    exact ⟨fun he => ⟨Selector.additionalField.inj he, hs⟩, fun he => by rw [he.1]⟩
  · exact ⟨fun he => absurd he (h name), fun he => absurd hs he.2⟩

section Keyed

variable {n r : List Char}

/-- The name of a field of its own that was read is what stands before the
first `=`. -/
theorem keyed_name {sel : Selector} {p : Pattern} (h : parseToken env (n ++ '=' :: r) = .ok (.selectorPattern sel p))
    (hsel : sel = .additionalField (String.ofList n)) : n ≠ [] ∧ trim n = n ∧ '=' ∉ n := by
  obtain ⟨-, h⟩ := (parseToken_pattern_iff env (.inr ⟨sel, p, rfl⟩)).mp h
  obtain ⟨-, -, left, right, hcut, hleft, -, hname, -⟩ := (parsePlain_selector_iff env).mp h
  have hn : trim left = n := by
    rw [hsel, parseSelector_additional_iff] at hname
    exact String.ofList_injective hname.1
  subst hn
  exact ⟨hleft, trim_trim left, fun hmem => (splitOnce_eq hcut).2 ((trim_sublist left).subset hmem)⟩

end Keyed

/-! ### The calls -/

theorem starts_of_head {c : Char} {l : List Char} (h : c ∉ ['l', 'd', 'b', 'c']) :
    ∀ s ∈ starts, afterStart s (c :: l) = none := by
  intro s hs
  unfold afterStart
  rw [if_neg]
  intro hp
  obtain ⟨t, ht⟩ := List.isPrefixOf_iff_prefix.mp hp
  have hhead : s.toList.head? = some c := by
    have hne : ∀ s ∈ starts, s.toList ≠ [] := by decide
    rw [← List.head?_append_of_ne_nil _ (hne s hs), ht]
    rfl
  have hall : ∀ s ∈ starts, s.toList.head?.all (fun c => c ∈ ['l', 'd', 'b', 'c']) = true := by decide
  have hc := hall s hs
  rw [hhead] at hc
  exact h (of_decide_eq_true hc)

theorem starts_of_no_eq {l : List Char} (h : '=' ∉ l) : ∀ s ∈ starts, afterStart s l = none := by
  intro s hs
  unfold afterStart
  rw [if_neg]
  intro hp
  have hall : ∀ s ∈ starts, '=' ∈ s.toList := by decide
  exact h ((List.isPrefixOf_iff_prefix.mp hp).subset (hall s hs))

/-- **A bare pattern** is read back when its text survives. -/
theorem parseToken_pattern (henv : env.Documented) (s : String) :
    parseToken env (esc s).toList = .ok (.barePattern (askedText env s)) ↔ PatternSurvives s.toList := by
  have hasked : askedText env s = .substring (lowered env s.toList) := by
    unfold askedText lowered
    rw [String.ofList_toList]
  rw [parseToken_pattern_iff env (.inl ⟨_, rfl⟩), hasked, parsePlain_substring_iff]
  unfold PatternSurvives
  by_cases hq : ',' ∈ s.toList ∨ '"' ∈ s.toList
  · rw [esc_quoted hq, trim_wrap, inside_wrap, lowered_escaped_iff henv, isQuoted_wrap]
    constructor
    · rintro ⟨-, ⟨-, hquote⟩ | ⟨hf, -⟩⟩
      · exact ⟨hquote, .inl (hq.resolve_right hquote)⟩
      · cases hf
    · rintro ⟨hquote, -⟩
      exact ⟨starts_of_head (by decide), .inl ⟨rfl, hquote⟩⟩
  · obtain ⟨hcomma, hquote⟩ := not_or.mp hq
    have hunquoted : isQuoted (trim s.toList) = false :=
      not_isQuoted (.inl fun h => hquote ((trim_sublist _).subset (List.mem_of_mem_head? h)))
    rw [esc_plain ⟨hcomma, hquote⟩, hunquoted, lowered_trim_iff henv]
    constructor
    · rintro ⟨-, ⟨hf, -⟩ | ⟨-, hslash, htrim, hcut⟩⟩
      · cases hf
      · rw [htrim] at hslash hcut
        refine ⟨hquote, .inr ⟨htrim, hslash, fun hmem => ?_⟩⟩
        obtain ⟨left, right, hs, hleft⟩ := List.eq_append_cons_of_mem hmem
        have hblank : trim left = [] := hcut left right (by rw [hs, splitOnce_append _ hleft])
        -- what is before the `=` is blank, and a trimmed text does not begin so
        cases left with
        | nil => rw [hs]; rfl
        | cons c left =>
          obtain ⟨a, b, hsplit, ha, hb⟩ := exists_trim (c :: left)
          rw [hblank, List.nil_append] at hsplit
          have hwhite : isWhiteSpace c = true := by
            have hc : c ∈ a ++ b := hsplit ▸ List.mem_cons_self
            exact (List.mem_append.mp hc).elim (ha c) (hb c)
          have := (trimmed_of_trim_eq htrim).1 c (by rw [hs]; rfl)
          rw [hwhite] at this
          cases this
    · rintro ⟨-, hrest⟩
      obtain ⟨htrim, hslash, heq⟩ := hrest.resolve_left hcomma
      rw [htrim]
      by_cases hmem : '=' ∈ s.toList
      · obtain ⟨l, hl⟩ : ∃ l, s.toList = '=' :: l := by
          have hhead := heq hmem
          cases hs : s.toList with
          | nil => rw [hs] at hhead; cases hhead
          | cons c l =>
            rw [hs] at hhead
            obtain rfl : c = '=' := by simpa using hhead
            exact ⟨l, rfl⟩
        rw [hl] at hslash ⊢
        refine ⟨starts_of_head (by decide), .inr ⟨rfl, hslash, rfl, fun left right hcut => ?_⟩⟩
        have hempty := splitOnce_append (c := '=') l (l := []) (by simp)
        rw [List.nil_append, hcut] at hempty
        obtain ⟨rfl, -⟩ := Prod.mk.inj (Option.some.inj hempty)
        rfl
      · refine ⟨starts_of_no_eq hmem, .inr ⟨rfl, hslash, rfl, fun left right hcut => ?_⟩⟩
        obtain ⟨hs, -⟩ := splitOnce_eq hcut
        exact absurd (hs ▸ List.mem_append_right _ List.mem_cons_self) hmem

theorem parseToken_patternRegex {r : String} {ci : Bool} (h : Compiles env r ci) :
    parseToken env (regexLit r ci).toList = .ok (.barePattern (askedRegex r ci)) := by
  rw [parseToken_pattern_iff env (.inl ⟨_, rfl⟩), trim_regexLit]
  have hhead : (regexLit r ci).toList.head? = some '/' := by rw [regexLit_toList]; rfl
  constructor
  · rw [regexLit_toList]
    exact starts_of_head (by decide)
  · unfold parsePlain
    rw [isQuoted_regexLit, if_neg Bool.false_ne_true, if_pos hhead, regex_reads h]

theorem unquote_regexLit (r : String) (ci : Bool) : unquote (trim (regexLit r ci).toList) = (regexLit r ci).toList := by
  unfold unquote
  rw [trim_regexLit, isQuoted_regexLit, if_neg Bool.false_ne_true]

/-- After a selector's name, only the value decides. -/
theorem parseToken_selector_iff {key : String} (hkey : key ∈ selectorNames) {r : List Char} {p : Pattern} :
    parseToken env (key.toList ++ '=' :: r) = .ok (.selectorPattern (parseSelector key) p) ↔
      parsePattern env (unquote (trim r)) = .ok p := by
  have hall : ∀ key ∈ selectorNames, (key.toList ≠ [] ∧ trim key.toList = key.toList ∧ '=' ∉ key.toList) ∧
      key.toList ≠ ['l'] ∧ key.toList.head? ≠ some '/' ∧ key.toList.head? ≠ some '"' ∧
      key.toList.getLast? ≠ some '>' ∧ key.toList.getLast? ≠ some '<' := by decide
  obtain ⟨⟨hne, htrim, heq⟩, hl, hslash, hquote, hop⟩ := hall key hkey
  rw [parseToken_keyed_iff hne htrim heq, String.ofList_toList]
  have hunquoted : isQuoted (key.toList ++ '=' :: trimEnd r) = false :=
    not_isQuoted (.inl (by rwa [List.head?_append_of_ne_nil _ hne]))
  exact ⟨fun h => h.2.2.2.2.2, fun h => ⟨hl, hslash, hop, hunquoted, rfl, h⟩⟩

/-- The last character of a value that survives is a quote where it was quoted,
and nowhere else. -/
theorem isQuoted_field_iff {name value : String} (hname : name.toList ≠ []) (hv : TextSurvives value.toList) :
    isQuoted (name.toList ++ '=' :: trimEnd (esc value).toList) = true ↔
      name.toList.head? = some '"' ∧ ',' ∈ value.toList := by
  obtain ⟨hquote, -, htrim⟩ := hv
  have hhead : (name.toList ++ '=' :: trimEnd (esc value).toList).head? = name.toList.head? :=
    List.head?_append_of_ne_nil _ hname
  by_cases hcomma : ',' ∈ value.toList
  · have hesc := esc_quoted (s := value) (.inl hcomma)
    have hlast : (name.toList ++ '=' :: trimEnd (esc value).toList).getLast? = some '"' := by
      rw [trimEnd_eq_self (by rw [hesc, trim_wrap]), hesc]
      simp [List.getLast?_cons, List.getLast?_append]
    unfold isQuoted
    rw [hhead, hlast]
    constructor
    · intro h
      exact ⟨by simpa using (Bool.and_eq_true_iff.mp (Bool.and_eq_true_iff.mp h).1).1, hcomma⟩
    · rintro ⟨h, -⟩
      rw [h]
      obtain ⟨c, l, hl⟩ := List.exists_cons_of_ne_nil hname
      simp [hl]
      omega
  · have hself : trimEnd (esc value).toList = value.toList := by
      rw [esc_plain ⟨hcomma, hquote⟩, trimEnd_eq_self (htrim.resolve_left hcomma)]
    have hlast : (name.toList ++ '=' :: trimEnd (esc value).toList).getLast? ≠ some '"' := by
      rw [hself]
      intro h
      have hmem : '"' ∈ '=' :: value.toList := by
        rw [List.getLast?_append_of_ne_nil _ (List.cons_ne_nil _ _)] at h
        exact List.mem_of_getLast? h
      simp [hquote] at hmem
    rw [not_isQuoted (.inr hlast)]
    simp [hcomma]

/-- **A field of its own** is read back when its name and its value survive,
and are not taken for one quoted text. -/
theorem parseToken_field_iff (henv : env.Documented) (name value : String) :
    parseToken env (name.toList ++ '=' :: (esc value).toList) =
        .ok (.selectorPattern (.additionalField name) (askedText env value)) ↔
      NameSurvives name ∧ TextSurvives value.toList ∧ ¬ (name.toList.head? = some '"' ∧ ',' ∈ value.toList) := by
  have hl : name.toList = ['l'] ↔ name = "l" := by
    rw [← String.toList_inj]
    rfl
  constructor
  · intro h
    obtain ⟨hne, htrim, heq⟩ := keyed_name h (by rw [String.ofList_toList])
    obtain ⟨hnot, hslash, hop, hunquoted, hsel, hp⟩ := (parseToken_keyed_iff hne htrim heq).mp h
    have hvalue := (text_reads_iff henv value).mp hp
    rw [String.ofList_toList, parseSelector_additional_iff] at hsel
    refine ⟨⟨⟨hne, htrim, heq⟩, hslash, hop, fun h => hnot (hl.mpr h), hsel.2⟩, hvalue, fun hboth => ?_⟩
    rw [(isQuoted_field_iff hne hvalue).mpr hboth] at hunquoted
    cases hunquoted
  · rintro ⟨⟨⟨hne, htrim, heq⟩, hslash, hop, hnot, hsel⟩, hvalue, hboth⟩
    have hunquoted := mt (isQuoted_field_iff hne hvalue).mp hboth
    rw [parseToken_keyed_iff hne htrim heq, String.ofList_toList, parseSelector_additional_iff, text_reads_iff henv]
    exact ⟨fun h => hnot (hl.mp h), hslash, hop, by simpa using hunquoted, ⟨rfl, hsel⟩, hvalue⟩

theorem parseToken_fieldRegex_iff {name r : String} {ci : Bool} (h : Compiles env r ci) :
    parseToken env (name.toList ++ '=' :: (regexLit r ci).toList) =
        .ok (.selectorPattern (.additionalField name) (askedRegex r ci)) ↔ NameSurvives name := by
  have hl : name.toList = ['l'] ↔ name = "l" := by
    rw [← String.toList_inj]
    rfl
  constructor
  · intro h
    obtain ⟨hne, htrim, heq⟩ := keyed_name h (by rw [String.ofList_toList])
    obtain ⟨hnot, hslash, hop, -, hsel, -⟩ := (parseToken_keyed_iff hne htrim heq).mp h
    rw [String.ofList_toList, parseSelector_additional_iff] at hsel
    exact ⟨⟨hne, htrim, heq⟩, hslash, hop, fun h => hnot (hl.mpr h), hsel.2⟩
  · rintro ⟨⟨hne, htrim, heq⟩, hslash, hop, hnot, hsel⟩
    have hlast : (name.toList ++ '=' :: trimEnd (regexLit r ci).toList).getLast? ≠ some '"' := by
      rw [trimEnd_eq_self (trim_regexLit r ci), regexLit_toList]
      cases ci <;> simp [List.getLast?_cons, List.getLast?_append]
    rw [parseToken_keyed_iff hne htrim heq, String.ofList_toList, parseSelector_additional_iff, unquote_regexLit]
    exact ⟨fun h => hnot (hl.mp h), hslash, hop, not_isQuoted (.inr hlast), ⟨rfl, hsel⟩, regex_reads h⟩

/-! ### The other calls -/

theorem level_reads (henv : env.Documented) (op : LevelOp) (l : Level) :
    parseLevel env op l.asStr.toList = .ok (.levelFilter op l.parsed) := by
  have hname : env.toUppercase l.asStr = l.asStr := henv.upper_level _ (by cases l <;> decide)
  unfold parseLevel levelFromName
  rw [String.ofList_toList, hname]
  cases l <;> rfl

theorem duration_reads (henv : env.Documented) (op : DurationOp) (ms : UInt32) :
    parseDuration env op (toString ms.toNat).toList = .ok (.durationFilter op (.finite ms.toNat)) := by
  unfold parseDuration
  rw [String.ofList_toList, henv.parse_decimal _ ms.toNat_lt]

/-- What the name of a bookmark is made of. -/
def isNameChar (c : Char) : Bool := c.isAlphanum || c = '-' || c = '_' || c = '/'

theorem isNameChar_plain {c : Char} (h : isNameChar c = true) : (c ≠ ',' ∧ c ≠ '"') ∧ isWhiteSpace c = false := by
  have hlt : c.toNat < 128 := by
    unfold isNameChar at h
    simp only [Bool.or_eq_true, decide_eq_true_eq] at h
    rcases h with ((h | rfl) | rfl) | rfl
    · exact isAlphanum_lt h
    · decide
    · decide
    · decide
  have hall : ∀ n < 128, isNameChar (Char.ofNat n) = true →
      (Char.ofNat n ≠ ',' ∧ Char.ofNat n ≠ '"') ∧ isWhiteSpace (Char.ofNat n) = false := by decide
  have := hall c.toNat hlt
  rw [Char.ofNat_toNat] at this
  exact this h

theorem mem_token {name : String} (h : isValidBookmarkToken name = true) :
    name.isEmpty = false ∧ ∀ c ∈ name.toList, isNameChar c = true := by
  unfold isValidBookmarkToken at h
  split_ifs at h with hempty
  exact ⟨by simpa using hempty, List.all_eq_true.mp h⟩

/-- A text of which no character is white space is trimmed. -/
theorem trim_of_no_white {l : List Char} (h : ∀ c ∈ l, isWhiteSpace c = false) : trim l = l :=
  trim_eq_self ⟨fun c hc => h c (List.mem_of_mem_head? hc), fun c hc => h c (List.mem_of_mem_getLast? hc)⟩

theorem name_reads {name : String} (h : isValidBookmarkToken name = true) : parseName name.toList = .ok name := by
  obtain ⟨hne, hchars⟩ := mem_token h
  have htrim : trim name.toList = name.toList := trim_of_no_white fun c hc => (isNameChar_plain (hchars c hc)).2
  unfold parseName
  dsimp only
  rw [htrim, String.ofList_toList, hne, if_neg Bool.false_ne_true, h, if_neg (by simp)]

theorem digit_plain {c : Char} (h : c.isDigit = true) : (c ≠ ',' ∧ c ≠ '"') ∧ isWhiteSpace c = false :=
  isNameChar_plain (by simp [isNameChar, Char.isAlphanum, h])

/-- What follows the start of a comparison, when there is nothing to trim. -/
theorem parseToken_starts {w : List Char} (h : ∀ c ∈ w, isWhiteSpace c = false) :
    (parseToken env ("l>=".toList ++ w) = parseLevel env .gte w ∧
      parseToken env ("l<=".toList ++ w) = parseLevel env .lte w ∧
      parseToken env ("l=".toList ++ w) = parseLevel env .eq w) ∧
    (parseToken env ("d>=".toList ++ w) = parseDuration env .gte w ∧
      parseToken env ("d<=".toList ++ w) = parseDuration env .lte w) ∧
    parseToken env ("b>=".toList ++ w) = (parseName w).map (.bookmarkFilter .gte) ∧
      parseToken env ("b<=".toList ++ w) = (parseName w).map (.bookmarkFilter .lte) ∧
      parseToken env ("c>=".toList ++ w) = (parseName w).map .cursorFilter := by
  have htrim : ∀ start ∈ starts, trim (start.toList ++ w) = start.toList ++ w := by
    intro start hstart
    have hall : ∀ s ∈ starts, (s.toList.all fun c => isWhiteSpace c = false) = true := by decide
    refine trim_of_no_white fun c hc => ?_
    exact (List.mem_append.mp hc).elim (forall_mem_of_all (hall start hstart) c) (h c)
  unfold parseToken
  dsimp only
  rw [htrim "l>=" (by decide), htrim "l<=" (by decide), htrim "l=" (by decide), htrim "d>=" (by decide),
    htrim "d<=" (by decide), htrim "b>=" (by decide), htrim "b<=" (by decide), htrim "c>=" (by decide)]
  exact ⟨⟨rfl, rfl, rfl⟩, ⟨rfl, rfl⟩, rfl, rfl, rfl⟩

/-! ### Commas and quotes -/

theorem commasQuoted_of_plain {l : List Char} (h : ∀ c ∈ l, c ≠ ',' ∧ c ≠ '"') : CommasQuoted l := by
  unfold CommasQuoted
  rw [← List.nil_append l, closed_append_plain h]
  rfl

theorem commasQuoted_esc {s : String} (h : '"' ∉ s.toList) {l : List Char} :
    CommasQuoted (l ++ '=' :: (esc s).toList) ↔ CommasQuoted l := by
  have heq : ∀ c ∈ ['='], c ≠ ',' ∧ c ≠ '"' := forall_mem_of_all (by decide)
  unfold CommasQuoted
  rw [← List.singleton_append, closed_append_plain_append heq]
  by_cases hcomma : ',' ∈ s.toList
  · rw [esc_quoted (.inl hcomma), escaped_eq_self h]
    constructor
    · exact closed_of_append_quoted hcomma h
    · intro hl
      rw [closed_append hl, closed, if_pos rfl]
      exact closed_inQuote_append h
  · have hplain : ∀ c ∈ s.toList, c ≠ ',' ∧ c ≠ '"' :=
      fun c hc => ⟨fun he => hcomma (he ▸ hc), fun he => h (he ▸ hc)⟩
    rw [esc_plain ⟨hcomma, h⟩, closed_append_plain hplain]

theorem commasQuoted_regex {r : String} {ci : Bool} {l : List Char} :
    CommasQuoted (l ++ '=' :: (regexLit r ci).toList) ↔ CommasQuoted (l ++ regexBody r) := by
  have hopen : ∀ c ∈ ['=', '/'], c ≠ ',' ∧ c ≠ '"' := forall_mem_of_all (by decide)
  have hclose : ∀ c ∈ '/' :: (if ci then ['i'] else []), c ≠ ',' ∧ c ≠ '"' :=
    forall_mem_of_all (by cases ci <;> decide)
  unfold CommasQuoted
  rw [regexLit_toList, show l ++ '=' :: '/' :: (regexBody r ++ '/' :: if ci then ['i'] else []) =
    l ++ (['=', '/'] ++ (regexBody r ++ '/' :: if ci then ['i'] else [])) by rfl,
    closed_append_plain_append hopen, ← List.append_assoc, closed_append_plain hclose]

theorem commasQuoted_regexLit {r : String} {ci : Bool} :
    CommasQuoted (regexLit r ci).toList ↔ CommasQuoted (regexBody r) := by
  have hopen : ∀ c ∈ ['/'], c ≠ ',' ∧ c ≠ '"' := forall_mem_of_all (by decide)
  have hclose : ∀ c ∈ '/' :: (if ci then ['i'] else []), c ≠ ',' ∧ c ≠ '"' :=
    forall_mem_of_all (by cases ci <;> decide)
  unfold CommasQuoted
  rw [regexLit_toList, ← List.singleton_append, closed_plain_append hopen, closed_append_plain hclose]

theorem commasQuoted_pattern {s : String} (h : '"' ∉ s.toList) : CommasQuoted (esc s).toList := by
  have := (commasQuoted_esc h (l := [])).mpr rfl
  unfold CommasQuoted at this ⊢
  rwa [List.nil_append, closed, if_neg (by decide), if_neg (by decide)] at this

/-! ### One call -/

theorem TextSelector.key (s : TextSelector) : ∃ key ∈ selectorNames, s.parsed = parseSelector key ∧
    (∀ sub, (FilterCall.text s sub).rendered = key ++ "=" ++ esc sub) ∧
    ∀ r ci, (FilterCall.textRegex s r ci).rendered = key ++ "=" ++ regexLit r ci := by
  cases s with
  | message => exact ⟨"m", by decide, rfl, fun _ => rfl, fun _ _ => rfl⟩
  | fullMessage => exact ⟨"fm", by decide, rfl, fun _ => rfl, fun _ _ => rfl⟩
  | messageOrFull => exact ⟨"mfm", by decide, rfl, fun _ => rfl, fun _ _ => rfl⟩
  | host => exact ⟨"h", by decide, rfl, fun _ => rfl, fun _ _ => rfl⟩
  | facility => exact ⟨"fa", by decide, rfl, fun _ => rfl, fun _ _ => rfl⟩
  | file => exact ⟨"fi", by decide, rfl, fun _ => rfl, fun _ _ => rfl⟩
  | spanName => exact ⟨"sn", by decide, rfl, fun _ => rfl, fun _ _ => rfl⟩
  | service => exact ⟨"sv", by decide, rfl, fun _ => rfl, fun _ _ => rfl⟩

theorem keyed_toList (key value : String) : (key ++ "=" ++ value).toList = key.toList ++ '=' :: value.toList := by
  rw [String.toList_append, String.toList_append, List.append_assoc]
  rfl

theorem commasQuoted_key {key : String} (hkey : key ∈ selectorNames) : ∀ c ∈ key.toList, c ≠ ',' ∧ c ≠ '"' := by
  have hall : ∀ key ∈ selectorNames, (key.toList.all fun c => decide (c ≠ ',' ∧ c ≠ '"')) = true := by decide
  exact forall_mem_of_all (hall key hkey)

/-- A call whose argument is one word is read back. -/
theorem word_reads (henv : env.Documented) {key : String} (hkey : key ∈ selectorNames) {w : String}
    (hw : ∀ c ∈ w.toList, (c ≠ ',' ∧ c ≠ '"') ∧ isWhiteSpace c = false ∧ c ≠ '/') :
    CommasQuoted (key ++ "=" ++ w).toList ∧
      parseToken env (key ++ "=" ++ w).toList = .ok (.selectorPattern (parseSelector key) (askedText env w)) := by
  have hplain : ',' ∉ w.toList ∧ '"' ∉ w.toList := ⟨fun h => (hw _ h).1.1 rfl, fun h => (hw _ h).1.2 rfl⟩
  have hsurvives : TextSurvives w.toList :=
    ⟨hplain.2, fun h => (hw _ (List.mem_of_mem_head? h)).2.2 rfl, .inr (trim_of_no_white fun c hc => (hw c hc).2.1)⟩
  rw [keyed_toList, ← esc_plain hplain]
  constructor
  · rw [commasQuoted_esc hplain.2]
    exact commasQuoted_of_plain (commasQuoted_key hkey)
  · rw [parseToken_selector_iff hkey]
    have := (text_reads_iff henv w).mpr hsurvives
    rwa [esc_plain hplain] at this ⊢

theorem level_plain (l : Level) : ∀ c ∈ l.asStr.toList, (c ≠ ',' ∧ c ≠ '"') ∧ isWhiteSpace c = false :=
  forall_mem_of_all (by cases l <;> decide)

theorem number_plain (n : ℕ) : ∀ c ∈ (toString n).toList, (c ≠ ',' ∧ c ≠ '"') ∧ isWhiteSpace c = false :=
  fun _ hc => digit_plain (isDigit_of_mem_toString hc)

/-- A start and a word have no comma and no quote. -/
theorem start_word_commas {start w : String} (hstart : start ∈ starts) (hw : ∀ c ∈ w.toList, c ≠ ',' ∧ c ≠ '"') :
    CommasQuoted (start ++ w).toList := by
  have hall : ∀ s ∈ starts, (s.toList.all fun c => decide (c ≠ ',' ∧ c ≠ '"')) = true := by decide
  rw [String.toList_append]
  refine commasQuoted_of_plain fun c hc => ?_
  exact (List.mem_append.mp hc).elim (forall_mem_of_all (hall start hstart) c) (hw c)

/-- **One call is read back exactly when its arguments survive.** -/
theorem call_reads_iff (henv : env.Documented) {c : FilterCall} {q : Qualifier} (hc : c.Allowed env)
    (hq : c.asked env = some q) :
    (CommasQuoted c.rendered.toList ∧ parseToken env c.rendered.toList = .ok q) ↔ c.Survives := by
  cases c with
  | matchAll => cases hq
  | matchNone => cases hq
  | levelAtLeast l =>
    obtain rfl := Option.some.inj hq
    refine iff_of_true ⟨start_word_commas (by decide) fun c hc => (level_plain l c hc).1, ?_⟩ trivial
    show parseToken env ("l>=" ++ l.asStr).toList = _
    rw [String.toList_append, (parseToken_starts fun c hc => (level_plain l c hc).2).1.1, level_reads henv]
  | levelAtMost l =>
    obtain rfl := Option.some.inj hq
    refine iff_of_true ⟨start_word_commas (by decide) fun c hc => (level_plain l c hc).1, ?_⟩ trivial
    show parseToken env ("l<=" ++ l.asStr).toList = _
    rw [String.toList_append, (parseToken_starts fun c hc => (level_plain l c hc).2).1.2.1, level_reads henv]
  | levelEq l =>
    obtain rfl := Option.some.inj hq
    refine iff_of_true ⟨start_word_commas (by decide) fun c hc => (level_plain l c hc).1, ?_⟩ trivial
    show parseToken env ("l=" ++ l.asStr).toList = _
    rw [String.toList_append, (parseToken_starts fun c hc => (level_plain l c hc).2).1.2.2, level_reads henv]
  | pattern sub =>
    obtain rfl := Option.some.inj hq
    show CommasQuoted (esc sub).toList ∧ parseToken env (esc sub).toList = _ ↔ _
    rw [parseToken_pattern henv]
    exact ⟨fun h => h.2, fun h => ⟨commasQuoted_pattern h.1, h⟩⟩
  | patternRegex regex ci =>
    obtain rfl := Option.some.inj hq
    show CommasQuoted (regexLit regex ci).toList ∧ parseToken env (regexLit regex ci).toList = _ ↔ _
    rw [commasQuoted_regexLit]
    exact ⟨fun h => h.1, fun h => ⟨h, parseToken_patternRegex hc⟩⟩
  | text selector sub =>
    obtain rfl := Option.some.inj hq
    obtain ⟨key, hkey, hsel, htext, -⟩ := selector.key
    rw [htext, keyed_toList, hsel, parseToken_selector_iff hkey, text_reads_iff henv]
    exact ⟨fun h => h.2, fun h => ⟨(commasQuoted_esc h.1).mpr (commasQuoted_of_plain (commasQuoted_key hkey)), h⟩⟩
  | textRegex selector r ci =>
    obtain rfl := Option.some.inj hq
    obtain ⟨key, hkey, hsel, -, hregex⟩ := selector.key
    rw [hregex, keyed_toList, hsel, parseToken_selector_iff hkey, unquote_regexLit, commasQuoted_regex]
    unfold CommasQuoted
    rw [closed_plain_append (commasQuoted_key hkey)]
    exact ⟨fun h => h.1, fun h => ⟨h, regex_reads hc⟩⟩
  | line n =>
    obtain rfl := Option.some.inj hq
    refine iff_of_true (@word_reads env henv "ln" (by decide) _ fun c hc => ?_) trivial
    have hdigit := isDigit_of_mem_toString hc
    refine ⟨(digit_plain hdigit).1, (digit_plain hdigit).2, ?_⟩
    rintro rfl
    revert hdigit
    decide
  | spanStatus s =>
    obtain rfl := Option.some.inj hq
    exact iff_of_true (@word_reads env henv "st" (by decide) _ (forall_mem_of_all (by cases s <;> decide))) trivial
  | spanKind k =>
    obtain rfl := Option.some.inj hq
    exact iff_of_true (@word_reads env henv "sk" (by decide) _ (forall_mem_of_all (by cases k <;> decide))) trivial
  | durationAtLeastMs ms =>
    obtain rfl := Option.some.inj hq
    refine iff_of_true ⟨start_word_commas (by decide) fun c hc => (number_plain _ c hc).1, ?_⟩ trivial
    show parseToken env ("d>=" ++ toString ms.toNat).toList = _
    rw [String.toList_append, (parseToken_starts fun c hc => (number_plain _ c hc).2).2.1.1, duration_reads henv]
  | durationAtMostMs ms =>
    obtain rfl := Option.some.inj hq
    refine iff_of_true ⟨start_word_commas (by decide) fun c hc => (number_plain _ c hc).1, ?_⟩ trivial
    show parseToken env ("d<=" ++ toString ms.toNat).toList = _
    rw [String.toList_append, (parseToken_starts fun c hc => (number_plain _ c hc).2).2.1.2, duration_reads henv]
  | bookmarkAfter name =>
    obtain rfl := Option.some.inj hq
    have hchars := fun c hm => isNameChar_plain ((mem_token hc).2 c hm)
    refine iff_of_true ⟨start_word_commas (by decide) fun c hm => (hchars c hm).1, ?_⟩ trivial
    show parseToken env ("b>=" ++ name).toList = _
    rw [String.toList_append, (parseToken_starts fun c hm => (hchars c hm).2).2.2.1, name_reads hc]
    rfl
  | bookmarkBefore name =>
    obtain rfl := Option.some.inj hq
    have hchars := fun c hm => isNameChar_plain ((mem_token hc).2 c hm)
    refine iff_of_true ⟨start_word_commas (by decide) fun c hm => (hchars c hm).1, ?_⟩ trivial
    show parseToken env ("b<=" ++ name).toList = _
    rw [String.toList_append, (parseToken_starts fun c hm => (hchars c hm).2).2.2.2.1, name_reads hc]
    rfl
  | cursor name =>
    obtain rfl := Option.some.inj hq
    have hchars := fun c hm => isNameChar_plain ((mem_token hc).2 c hm)
    refine iff_of_true ⟨start_word_commas (by decide) fun c hm => (hchars c hm).1, ?_⟩ trivial
    show parseToken env ("c>=" ++ name).toList = _
    rw [String.toList_append, (parseToken_starts fun c hm => (hchars c hm).2).2.2.2.2, name_reads hc]
    rfl
  | additionalField name value =>
    obtain rfl := Option.some.inj hq
    have hrendered : (FilterCall.additionalField name value).rendered = name ++ "=" ++ esc value := rfl
    rw [hrendered, keyed_toList, parseToken_field_iff henv]
    constructor
    · rintro ⟨hcommas, hname, hvalue, hboth⟩
      exact ⟨hname, hvalue, (commasQuoted_esc hvalue.1).mp hcommas, hboth⟩
    · rintro ⟨hname, hvalue, hcommas, hboth⟩
      exact ⟨(commasQuoted_esc hvalue.1).mpr hcommas, hname, hvalue, hboth⟩
  | additionalFieldRegex name regex ci =>
    obtain rfl := Option.some.inj hq
    have hrendered : (FilterCall.additionalFieldRegex name regex ci).rendered = name ++ "=" ++ regexLit regex ci := rfl
    rw [hrendered, keyed_toList, parseToken_fieldRegex_iff hc.2, commasQuoted_regex]
    exact ⟨fun h => ⟨h.2, h.1⟩, fun h => ⟨h.2, h.1⟩⟩

end Sdk
end Logmon
