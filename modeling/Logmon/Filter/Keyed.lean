/-
# Tokens with a selector

A name, a `=` and a value, as the parser of one token reads them: nothing but
the value is trimmed (`trim_keyed`), and the name decides alone whether the
token is a comparison, a regex or a pattern under a selector
(`parseToken_keyed_iff`).

A text of one such token is a filter of one qualifier (`parseFilter_keyed_iff`),
when the name has no comma outside quotes and leaves none open. So is a text in
quotes (`parseFilter_quoted`).

Key definitions: `trimEnd`, `Keyable`.
Key theorems: `starts_keyed`, `parseToken_keyed_iff`, `parseFilter_keyed_iff`,
`parseFilter_quoted`.
-/
import Logmon.Filter.Tokens

namespace Logmon

open Lib

variable {env : ParseEnv}

/-- Without the white space at the end. -/
def trimEnd (l : List Char) : List Char := (l.reverse.dropWhile isWhiteSpace).reverse

theorem trim_trimEnd (l : List Char) : trim (trimEnd l) = trim l := by
  have hsplit : trimEnd l ++ (l.reverse.takeWhile isWhiteSpace).reverse = l := by
    unfold trimEnd
    rw [← List.reverse_append, List.takeWhile_append_dropWhile, List.reverse_reverse]
  have := trim_append (trimEnd l) (a := []) (b := (l.reverse.takeWhile isWhiteSpace).reverse) (by simp)
    fun c hc => List.all_eq_true.mp List.all_takeWhile c (List.mem_reverse.mp hc)
  rw [List.nil_append, hsplit] at this
  exact this.symm

theorem trimEnd_eq_self {l : List Char} (h : trim l = l) : trimEnd l = l := by
  unfold trimEnd
  rw [dropWhile_eq_self, List.reverse_reverse]
  rw [List.head?_reverse]
  exact (trimmed_of_trim_eq h).2

section Keyed

variable {n r : List Char}

/-- Only the value of a token is trimmed. -/
theorem trim_keyed (hne : n ≠ []) (htrim : trim n = n) : trim (n ++ '=' :: r) = n ++ '=' :: trimEnd r := by
  have hhead : (n ++ '=' :: r).dropWhile isWhiteSpace = n ++ '=' :: r := by
    refine dropWhile_eq_self fun c hc => (trimmed_of_trim_eq htrim).1 c ?_
    rwa [List.head?_append_of_ne_nil _ hne] at hc
  have hstop : ('=' :: n.reverse).dropWhile isWhiteSpace = '=' :: n.reverse :=
    dropWhile_eq_self fun c hc => by
      obtain rfl : '=' = c := by simpa using hc
      decide
  unfold trim trimEnd
  rw [hhead, List.reverse_append, List.reverse_cons, List.append_assoc, List.singleton_append, List.dropWhile_append]
  split_ifs with h
  · rw [hstop, List.isEmpty_iff.mp h]
    simp
  · simp

theorem afterStart_keyed {start : String} {k : List Char} (hstart : start.toList = k ++ ['=']) (hk : '=' ∉ k)
    (hn : '=' ∉ n) : afterStart start (n ++ '=' :: r) = none ↔ n ≠ k := by
  unfold afterStart
  rw [hstart]
  constructor
  · rintro h rfl
    rw [if_pos] at h
    · cases h
    · exact List.isPrefixOf_iff_prefix.mpr ⟨r, by simp⟩
  · intro hne
    rw [if_neg]
    intro h
    obtain ⟨t, ht⟩ := List.isPrefixOf_iff_prefix.mp h
    have hcut := splitOnce_append t hk
    rw [show k ++ '=' :: t = n ++ '=' :: r by rw [← ht]; simp, splitOnce_append r hn] at hcut
    exact hne (Prod.mk.inj (Option.some.inj hcut)).1

/-- A name followed by `=` begins none of the comparisons but `l=`, unless it
ends as one. -/
theorem starts_keyed (hn : '=' ∉ n) (hop : n.getLast? ≠ some '>' ∧ n.getLast? ≠ some '<') :
    (∀ s ∈ starts, afterStart s (n ++ '=' :: r) = none) ↔ n ≠ ['l'] := by
  have hends : ∀ a b, (b = '>' ∨ b = '<') → n ≠ [a, b] := by
    rintro a b (rfl | rfl) rfl
    · exact hop.1 rfl
    · exact hop.2 rfl
  simp only [starts, List.forall_mem_cons]
  rw [afterStart_keyed (k := ['l', '>']) rfl (by decide) hn, afterStart_keyed (k := ['l', '<']) rfl (by decide) hn,
    afterStart_keyed (k := ['l']) rfl (by decide) hn, afterStart_keyed (k := ['d', '>']) rfl (by decide) hn,
    afterStart_keyed (k := ['d', '<']) rfl (by decide) hn, afterStart_keyed (k := ['b', '>']) rfl (by decide) hn,
    afterStart_keyed (k := ['b', '<']) rfl (by decide) hn, afterStart_keyed (k := ['c', '>']) rfl (by decide) hn,
    afterStart_keyed (k := ['c', '<']) rfl (by decide) hn]
  exact ⟨fun h => h.2.2.1, fun h => ⟨hends _ _ (.inl rfl), hends _ _ (.inr rfl), h, hends _ _ (.inl rfl),
    hends _ _ (.inr rfl), hends _ _ (.inl rfl), hends _ _ (.inr rfl), hends _ _ (.inl rfl), hends _ _ (.inr rfl),
    by simp⟩⟩

/-- **A name and a value** are read as a selector and a pattern. -/
theorem parseToken_keyed_iff (hne : n ≠ []) (htrim : trim n = n) (hn : '=' ∉ n) {sel : Selector} {p : Pattern} :
    parseToken env (n ++ '=' :: r) = .ok (.selectorPattern sel p) ↔
      n ≠ ['l'] ∧ n.head? ≠ some '/' ∧ (n.getLast? ≠ some '>' ∧ n.getLast? ≠ some '<') ∧
        isQuoted (n ++ '=' :: trimEnd r) = false ∧ parseSelector (String.ofList n) = sel ∧
        parsePattern env (unquote (trim r)) = .ok p := by
  rw [parseToken_pattern_iff env (.inr ⟨sel, p, rfl⟩), trim_keyed hne htrim, parsePlain_selector_iff,
    splitOnce_append _ hn, List.head?_append_of_ne_nil _ hne]
  constructor
  · rintro ⟨hstarts, hquoted, hslash, left, right, hcut, -, hop, hsel, hp⟩
    obtain ⟨rfl, rfl⟩ := Prod.mk.inj (Option.some.inj hcut)
    rw [htrim] at hop hsel
    rw [trim_trimEnd] at hp
    exact ⟨(starts_keyed hn hop).mp hstarts, hslash, hop, hquoted, hsel, hp⟩
  · rintro ⟨hl, hslash, hop, hquoted, hsel, hp⟩
    refine ⟨(starts_keyed hn hop).mpr hl, hquoted, hslash, n, trimEnd r, rfl, ?_, ?_, ?_, ?_⟩
    · rwa [htrim]
    · rwa [htrim]
    · rwa [htrim]
    · rwa [trim_trimEnd]

end Keyed

/-! ### Quoted texts -/

theorem isQuoted_wrap (l : List Char) : isQuoted ('"' :: (l ++ ['"'])) = true := by
  simp [isQuoted, List.getLast?_cons]

theorem inside_wrap (l : List Char) : inside ('"' :: (l ++ ['"'])) = l := by
  simp [inside]

theorem not_isQuoted {l : List Char} (h : l.head? ≠ some '"' ∨ l.getLast? ≠ some '"') : isQuoted l = false := by
  unfold isQuoted
  rcases h with h | h
  · simp [h]
  · simp [h]

theorem trim_wrap (l : List Char) : trim ('"' :: (l ++ ['"'])) = '"' :: (l ++ ['"']) := by
  refine trim_eq_self ⟨fun c hc => ?_, fun c hc => ?_⟩
  · obtain rfl : '"' = c := by simpa using hc
    decide
  · obtain rfl : '"' = c := by simpa [List.getLast?_cons] using hc
    decide

/-! ### A text of one token -/

/-- A name that a `=` may follow: it is read as it stands. -/
structure Keyable (n : List Char) : Prop where
  ne_nil : n ≠ []
  trimmed : trim n = n
  no_eq : '=' ∉ n
  ne_level : n ≠ ['l']
  no_slash : n.head? ≠ some '/'
  no_op : n.getLast? ≠ some '>' ∧ n.getLast? ≠ some '<'
  closed : Lib.closed ',' '"' false n = true

theorem selectorPattern_alone (sel : Selector) (p : Pattern) :
    ((Qualifier.selectorPattern sel p).isSpan && (Qualifier.selectorPattern sel p).isLog) = false := by
  cases sel <;> rfl

/-- A text of one token, with no comma outside quotes. -/
theorem parseFilter_alone_iff {t : List Char} {q : Qualifier} (htrim : trim t = t)
    (hne : t ≠ [] ∧ t ≠ "ALL".toList ∧ t ≠ "NONE".toList) (hclosed : closed ',' '"' false t = true)
    (halone : (q.isSpan && q.isLog) = false) :
    parseFilter env (String.ofList t) = .ok (.qualifiers [q]) ↔ parseToken env t = .ok q := by
  have htokens : tokensOf [t] = [t] := by
    unfold tokensOf
    rw [List.map_singleton, htrim, List.filter_singleton, List.isEmpty_eq_false_iff.mpr hne.1]
    rfl
  have hcursor : [q].countP Qualifier.isCursor ≤ 1 := List.countP_le_length
  have hfields : commaFields t = some [t] := fields_of_closed hclosed
  rw [parseFilter_qualifiers_iff, String.toList_ofList, htrim, hfields]
  constructor
  · rintro ⟨-, ⟨fs, hfs, htoken⟩, -⟩
    obtain rfl := Option.some.inj hfs
    rw [htokens] at htoken
    cases htoken with
    | cons ht _ => exact ht
  · intro ht
    exact ⟨hne, ⟨[t], rfl, htokens.symm ▸ .cons ht .nil⟩, List.cons_ne_nil _ _, by simpa using halone, hcursor⟩

/-- Neither blank nor one of the two words. -/
theorem ne_words {t : List Char} {c : Char} (hc : c ∈ t) (hword : c ∉ "ALLNONE".toList) :
    t ≠ [] ∧ t ≠ "ALL".toList ∧ t ≠ "NONE".toList := by
  refine ⟨List.ne_nil_of_mem hc, ?_, ?_⟩
  · rintro rfl
    exact hword (List.mem_append_left _ hc : c ∈ "ALL".toList ++ "NONE".toList)
  · rintro rfl
    exact hword (List.mem_append_right _ hc : c ∈ "ALL".toList ++ "NONE".toList)

/-- **A name and a value are a filter of one qualifier**, unless the whole text
is in quotes. -/
theorem parseFilter_keyed_iff {n r : List Char} (h : Keyable n) (hr : trimEnd r = r)
    (hclosed : closed ',' '"' false r = true) {sel : Selector} {p : Pattern} :
    parseFilter env (String.ofList (n ++ '=' :: r)) = .ok (.qualifiers [.selectorPattern sel p]) ↔
      isQuoted (n ++ '=' :: r) = false ∧ parseSelector (String.ofList n) = sel ∧
        parsePattern env (unquote (trim r)) = .ok p := by
  have hmem : '=' ∈ n ++ '=' :: r := List.mem_append_right _ List.mem_cons_self
  have hwhole : closed ',' '"' false (n ++ '=' :: r) = true := by
    rw [closed_append h.closed]
    exact (@closed_plain_append _ _ ',' '"' false r ['='] (by simp)).trans hclosed
  have htrim : trim (n ++ '=' :: r) = n ++ '=' :: r := by rw [trim_keyed h.ne_nil h.trimmed, hr]
  rw [parseFilter_alone_iff htrim (ne_words hmem (by decide)) hwhole (selectorPattern_alone _ _),
    parseToken_keyed_iff h.ne_nil h.trimmed h.no_eq, hr]
  constructor
  · rintro ⟨-, -, -, hquoted, hsel, hp⟩
    exact ⟨hquoted, hsel, hp⟩
  · rintro ⟨hquoted, hsel, hp⟩
    exact ⟨h.ne_level, h.no_slash, h.no_op, hquoted, hsel, hp⟩

/-- **A text in quotes is a filter of one bare substring**, whatever is in it
but a quote. -/
theorem parseFilter_quoted {v : List Char} (hv : '"' ∉ v) :
    parseFilter env (String.ofList ('"' :: (v ++ ['"']))) = .ok (.qualifiers [.barePattern (.substring (lowered env v))]) := by
  have hstarts : ∀ s ∈ starts, afterStart s ('"' :: (v ++ ['"'])) = none := by
    simp only [starts, List.forall_mem_cons]
    exact ⟨rfl, rfl, rfl, rfl, rfl, rfl, rfl, rfl, rfl, by simp⟩
  refine (parseFilter_alone_iff (trim_wrap v) (ne_words List.mem_cons_self (by decide)) ?_ rfl).mpr ?_
  · show closed ',' '"' true (v ++ ['"']) = true
    rw [closed_inQuote_append hv]
    rfl
  · rw [parseToken_pattern_iff env (.inl ⟨_, rfl⟩), trim_wrap, parsePlain_substring_iff]
    exact ⟨hstarts, .inl ⟨isQuoted_wrap v, by rw [inside_wrap]⟩⟩

end Logmon
