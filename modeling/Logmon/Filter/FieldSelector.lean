/-
# Selectors of additional fields

`additional_field_selector` of `filter/parser.rs` says how a filter reaches an
additional field, by asking the parser about one probe value. A selector it
claims works for every plain value, and it claims one for every field that can
be reached, apart from two kinds of name: `l`, which a blank before the `=`
saves from being read as a level, and a name that leaves a quote open, which
the selector may close behind an `=` of its own (`selector_reaches_iff`).

A value in quotes is taken as it stands under every selector, unless it begins
with a slash: the quotes are gone when the pattern is read, so that it is a
regex (`quoted_literal_iff`).

Key definitions: `additionalFieldSelector`, `PlainValue`, `Reaches`,
`LeavesQuoteOpen`.
Key theorems: `additionalFieldSelector_eq_some_iff`, `name_of_reaches`,
`selector_reaches_iff`, `quoted_literal_iff`.
-/
import Logmon.Filter.Keyed

namespace Logmon

open Lib

variable (env : ParseEnv)

/-- `additional_field_selector`: the spelling that reaches a field, if one
does. -/
def additionalFieldSelector (name : String) : Option String :=
  if name.isEmpty then none
  else
    match parseFilter env (name ++ "=x") with
    | .ok (.qualifiers [.selectorPattern (.additionalField n) _]) => if n = name then some name else none
    | _ => none

/-- A value that needs no quotes. -/
structure PlainValue (v : String) : Prop where
  ne_empty : v ≠ ""
  no_comma : ',' ∉ v.toList
  no_quote : '"' ∉ v.toList
  no_slash : v.toList.head? ≠ some '/'
  trimmed : trim v.toList = v.toList

/-- The text is a filter of one pattern on the field. -/
def OnField (name text : String) : Prop :=
  ∃ p, parseFilter env text = .ok (.qualifiers [.selectorPattern (.additionalField name) p])

/-- A text that reaches the field, whatever the value after it. -/
def Reaches (name s : String) : Prop := ∀ v, PlainValue v → OnField env name (s ++ "=" ++ v)

variable {env}

theorem parseSelector_eq {s name : String} (h : parseSelector s = .additionalField name) : s = name := by
  rcases parseSelector_cases s with ⟨-, hs⟩ | ⟨-, hs⟩
  · exact Selector.additionalField.inj (hs.symm.trans h)
  · exact absurd h (hs name)

/-! ### The names that are read -/

/-- What the name of a field that was read is like, whether or not it leaves a
quote open. -/
structure FieldName (n : List Char) : Prop where
  ne_nil : n ≠ []
  trimmed : trim n = n
  no_eq : '=' ∉ n
  no_slash : n.head? ≠ some '/'
  no_op : n.getLast? ≠ some '>' ∧ n.getLast? ≠ some '<'
  selector : parseSelector (String.ofList n) = .additionalField (String.ofList n)
  /-- Its commas are in quotes. -/
  commas : (endsInQuote ',' '"' false n).isSome

/-- A field of a text, trimmed, is closed. -/
theorem closed_of_token {l t : List Char} {fs : List (List Char)} (h : commaFields l = some fs) (ht : t ∈ tokensOf fs) :
    closed ',' '"' false t = true := by
  unfold tokensOf at ht
  obtain ⟨f, hf, rfl⟩ := List.mem_map.mp (List.mem_of_mem_filter ht)
  have hclosed : closed ',' '"' false f = true := by
    obtain ⟨g, gs, rfl⟩ := List.exists_cons_of_ne_nil (fields_ne_nil h)
    obtain ⟨hg, hgs⟩ := closed_of_fields h
    rcases List.mem_cons.mp hf with rfl | hf
    · exact hg
    · exact hgs f hf
  obtain ⟨a, b, hl, ha, hb⟩ := exists_trim f
  rw [hl, closed_plain_append (white_plain ha), closed_append_plain (white_plain hb)] at hclosed
  exact hclosed

/-- **The field a filter of one pattern is on** has such a name. -/
theorem name_of_onField {name text : String} (h : OnField env name text) : FieldName name.toList := by
  obtain ⟨p, h⟩ := h
  obtain ⟨-, ⟨fs, hfs, htokens⟩, -⟩ := (parseFilter_qualifiers_iff env text _).mp h
  obtain ⟨t, ts, ht, hts, htokensOf⟩ := List.forall₂_cons_right_iff.mp htokens
  have hclosed := closed_of_token hfs (htokensOf ▸ List.mem_cons_self : t ∈ tokensOf fs)
  have htrim : trim t = t := by
    have hmem : t ∈ tokensOf fs := htokensOf ▸ List.mem_cons_self
    unfold tokensOf at hmem
    obtain ⟨f, -, rfl⟩ := List.mem_map.mp (List.mem_of_mem_filter hmem)
    exact trim_trim f
  obtain ⟨-, hplain⟩ := (parseToken_pattern_iff env (.inr ⟨_, p, rfl⟩)).mp ht
  obtain ⟨-, hslash, left, right, hcut, hne, hop, hsel, -⟩ := (parsePlain_selector_iff env).mp hplain
  have hname := parseSelector_eq hsel
  have hlist : trim left = name.toList := by rw [← hname, String.toList_ofList]
  rw [htrim] at hcut hslash
  obtain ⟨hsplit, hno⟩ := splitOnce_eq hcut
  obtain ⟨a, b, hleft, ha, hb⟩ := exists_trim left
  rw [hlist] at hne hop hleft
  have hfront : a = [] := by
    -- a token has no white space in front
    cases a with
    | nil => rfl
    | cons c a =>
      have hc := ha c List.mem_cons_self
      have hhead := (trimmed_of_trim_eq htrim).1 c (by rw [hsplit, hleft]; rfl)
      rw [hc] at hhead
      cases hhead
  subst hfront
  rw [List.nil_append] at hleft
  refine ⟨hne, by rw [← hlist, trim_trim], fun hmem => ?_, fun hs => hslash ?_, hop, ?_, ?_⟩
  · rw [hleft] at hno
    exact hno (List.mem_append_left _ hmem)
  · rw [hsplit, hleft, List.append_assoc, List.head?_append_of_ne_nil _ hne, hs]
  · rw [String.ofList_toList]
    rw [hname] at hsel
    exact hsel
  · rw [closed_iff_endsInQuote, hsplit, hleft, List.append_assoc, endsInQuote_append] at hclosed
    obtain ⟨q, hq, -⟩ := Option.bind_eq_some_iff.mp hclosed
    rw [hq]
    rfl

/-- A field name that leaves no quote open may have a value after it, unless it
is read as a level. -/
theorem FieldName.keyable {n : List Char} (h : FieldName n) (hlevel : n ≠ ['l'])
    (hclosed : endsInQuote ',' '"' false n = some false) : Keyable n :=
  ⟨h.ne_nil, h.trimmed, h.no_eq, hlevel, h.no_slash, h.no_op, closed_iff_endsInQuote.mpr hclosed⟩

/-! ### Plain values -/

theorem PlainValue.plain {v : String} (hv : PlainValue v) : ∀ c ∈ v.toList, c ≠ ',' ∧ c ≠ '"' := fun _ hc =>
  ⟨fun h => hv.no_comma (h ▸ hc), fun h => hv.no_quote (h ▸ hc)⟩

theorem PlainValue.ne_nil {v : String} (hv : PlainValue v) : v.toList ≠ [] := fun h =>
  hv.ne_empty (String.toList_inj.mp (by rw [h]; rfl))

/-- What a plain value keeps when something stands in front of it. -/
theorem PlainValue.after {v : String} (hv : PlainValue v) (l : List Char) :
    (∀ c, (l ++ v.toList).getLast? = some c → isWhiteSpace c = false) ∧ isQuoted (l ++ v.toList) = false := by
  have hlast : (l ++ v.toList).getLast? = v.toList.getLast? := List.getLast?_append_of_ne_nil _ hv.ne_nil
  obtain ⟨c, hc⟩ := Option.ne_none_iff_exists'.mp (mt List.getLast?_eq_none_iff.mp hv.ne_nil)
  rw [hlast]
  exact ⟨(trimmed_of_trim_eq hv.trimmed).2,
    not_isQuoted (.inr fun h => (hv.plain c (List.mem_of_getLast? hc)).2 (Option.some.inj (hc ▸ hlast ▸ h)))⟩

/-- A plain value is a substring. -/
theorem PlainValue.pattern {v : String} (hv : PlainValue v) :
    parsePattern env (unquote (trim v.toList)) = .ok (.substring (env.toLowercase v)) := by
  have hunquoted := (hv.after []).2
  rw [List.nil_append] at hunquoted
  rw [hv.trimmed, unquote, if_neg (by simp [hunquoted]), parsePattern_substring_iff]
  exact ⟨hv.no_slash, by rw [lowered, String.ofList_toList]⟩

theorem keyed_text (name v : String) : name ++ "=" ++ v = String.ofList (name.toList ++ '=' :: v.toList) := by
  refine String.toList_inj.mp (Eq.trans ?_ String.toList_ofList.symm)
  rw [String.toList_append, String.toList_append, List.append_assoc]
  rfl

/-- A plain value after a name that ends outside quotes. -/
theorem PlainValue.onField {name v : String} (hv : PlainValue v) (hname : Keyable name.toList) :
    parseFilter env (name ++ "=" ++ v) =
      .ok (.qualifiers [.selectorPattern (parseSelector name) (.substring (env.toLowercase v))]) := by
  have hclosed : closed ',' '"' false v.toList = true := by
    rw [closed_iff_endsInQuote, endsInQuote_plain hv.plain]
  have hquoted : isQuoted (name.toList ++ '=' :: v.toList) = false := by
    have := (hv.after (name.toList ++ ['='])).2
    rwa [List.append_assoc, List.singleton_append] at this
  rw [keyed_text]
  exact (parseFilter_keyed_iff hname (trimEnd_eq_self hv.trimmed) hclosed).mpr
    ⟨hquoted, by rw [String.ofList_toList], hv.pattern⟩

theorem plainValue_x : PlainValue "x" := ⟨by decide, by decide, by decide, by decide, by decide⟩

/-- A name is closed where a text read with a plain value after it is. -/
theorem FieldName.closed_of_read {n v : List Char} (h : FieldName n) (hv : ∀ c ∈ v, c ≠ ',' ∧ c ≠ '"')
    {fs : List (List Char)} (hfs : commaFields (n ++ '=' :: v) = some fs) : endsInQuote ',' '"' false n = some false := by
  obtain ⟨b, hb⟩ := Option.isSome_iff_exists.mp h.commas
  cases b with
  | false => exact hb
  | true =>
    have hplain : ∀ c ∈ '=' :: v, c ≠ ',' ∧ c ≠ '"' := List.forall_mem_cons.mpr ⟨by decide, hv⟩
    have hopen : endsInQuote ',' '"' false (n ++ '=' :: v) = some true := by
      rw [endsInQuote_append, hb]
      exact endsInQuote_plain hplain
    rw [commaFields, fields_eq_none_of_open hopen] at hfs
    cases hfs

/-- A name that a plain value after it reaches. -/
theorem keyable_of_onField {name v : String} (hv : PlainValue v) (h : OnField env name (name ++ "=" ++ v)) :
    Keyable name.toList := by
  have hname := name_of_onField h
  obtain ⟨p, h⟩ := h
  have htrim : trim (name.toList ++ '=' :: v.toList) = name.toList ++ '=' :: v.toList := by
    rw [trim_keyed hname.ne_nil hname.trimmed, trimEnd_eq_self hv.trimmed]
  obtain ⟨-, ⟨fs, hfs, -⟩, -⟩ := (parseFilter_qualifiers_iff env _ _).mp h
  rw [keyed_text, String.toList_ofList] at hfs
  have hclosed := hname.closed_of_read hv.plain hfs
  have hwhole : closed ',' '"' false (name.toList ++ '=' :: v.toList) = true := by
    rw [closed_append (closed_iff_endsInQuote.mpr hclosed), closed_iff_endsInQuote,
      endsInQuote_plain (List.forall_mem_cons.mpr ⟨by decide, hv.plain⟩)]
  rw [keyed_text, parseFilter_alone_iff htrim (ne_words (c := '=') (by simp) (by decide)) hwhole (selectorPattern_alone _ _),
    parseToken_keyed_iff hname.ne_nil hname.trimmed hname.no_eq] at h
  exact hname.keyable h.1 hclosed

/-- **Which fields have a selector**: those whose name may have a value after
it. -/
theorem additionalFieldSelector_eq_some_iff {name s : String} :
    additionalFieldSelector env name = some s ↔
      s = name ∧ Keyable name.toList ∧ parseSelector name = .additionalField name := by
  have hprobe : name ++ "=" ++ "x" = name ++ "=x" := String.append_assoc
  unfold additionalFieldSelector
  constructor
  · intro h
    split_ifs at h
    have hon : OnField env name (name ++ "=x") ∧ s = name := by
      split at h
      · next n p hread =>
        split_ifs at h with hn
        subst hn
        exact ⟨⟨p, hread⟩, (Option.some.inj h).symm⟩
      · cases h
    obtain ⟨hon, rfl⟩ := hon
    have hname := name_of_onField hon
    refine ⟨rfl, keyable_of_onField plainValue_x (hprobe ▸ hon), ?_⟩
    have := hname.selector
    rwa [String.ofList_toList] at this
  · rintro ⟨rfl, hkey, hsel⟩
    have hread := @PlainValue.onField env _ _ plainValue_x hkey
    rw [hprobe, hsel] at hread
    have hne : s.isEmpty = false := by
      refine Bool.eq_false_iff.mpr fun he => hkey.ne_nil ?_
      rw [String.isEmpty_iff.mp he]
      rfl
    rw [hne, hread]
    simp

/-! ### Every way to reach a field -/

/-- A field name with an odd number of quotes in it: whatever follows begins
inside them. -/
def LeavesQuoteOpen (n : String) : Prop := FieldName n.toList ∧ endsInQuote ',' '"' false n.toList = some true

/-- The name of a reached field. -/
theorem name_of_reaches {name s : String} (h : Reaches env name s) : FieldName name.toList :=
  name_of_onField (h "x" plainValue_x)

/-- A blank behind the field name `l` keeps it from being read as a level. -/
theorem reaches_l : Reaches env "l" "l " := by
  intro v hv
  obtain ⟨hlast, hquoted⟩ := hv.after "l =".toList
  have htrim : trim ("l =".toList ++ v.toList) = "l =".toList ++ v.toList :=
    trim_eq_self ⟨fun c hc => by
      obtain rfl : 'l' = c := by simpa using hc
      decide, hlast⟩
  refine ⟨.substring (env.toLowercase v), ?_⟩
  rw [keyed_text]
  refine (parseFilter_alone_iff htrim (ne_words (c := '=') (by simp) (by decide)) ?_ rfl).mpr ?_
  · have hname : ∀ c ∈ "l =".toList, c ≠ ',' ∧ c ≠ '"' := by simp
    rw [closed_plain_append hname, closed_iff_endsInQuote, endsInQuote_plain hv.plain]
  · rw [parseToken_pattern_iff env (.inr ⟨_, _, rfl⟩), htrim]
    refine ⟨?_, (parsePlain_selector_iff env).mpr ⟨hquoted, by simp, ['l', ' '], v.toList,
      splitOnce_append (l := ['l', ' ']) _ (by decide), by decide, by decide, by decide, hv.pattern⟩⟩
    simp only [starts, List.forall_mem_cons]
    exact ⟨rfl, rfl, rfl, rfl, rfl, rfl, rfl, rfl, rfl, by simp⟩

/-- A name that leaves a quote open is closed by a quote behind the `=`. -/
theorem reaches_open {name : String} (h : LeavesQuoteOpen name) : Reaches env name (name ++ "=\"") := by
  intro v hv
  obtain ⟨hname, hopen⟩ := h
  obtain ⟨hlast, -⟩ := hv.after ['"', '=']
  have htext : name ++ "=\"" ++ "=" ++ v = String.ofList (name.toList ++ '=' :: '"' :: '=' :: v.toList) := by
    refine String.toList_inj.mp (Eq.trans ?_ String.toList_ofList.symm)
    rw [String.toList_append, String.toList_append, String.toList_append, List.append_assoc, List.append_assoc]
    rfl
  have hr : trim ('"' :: '=' :: v.toList) = '"' :: '=' :: v.toList :=
    trim_eq_self ⟨fun c hc => by
      obtain rfl : '"' = c := by simpa using hc
      decide, hlast⟩
  have hquoted : ∀ l, isQuoted (l ++ '"' :: '=' :: v.toList) = false := fun l => by
    have := (hv.after (l ++ ['"', '='])).2
    rwa [List.append_assoc] at this
  have hl : name.toList ≠ ['l'] := by
    intro hl
    rw [hl] at hopen
    cases hopen
  refine ⟨.substring (env.toLowercase ("\"=" ++ v)), ?_⟩
  rw [htext]
  refine (parseFilter_alone_iff ?_ (ne_words (c := '=') (by simp) (by decide)) ?_ rfl).mpr ?_
  · rw [trim_keyed hname.ne_nil hname.trimmed, trimEnd_eq_self hr]
  · rw [closed_iff_endsInQuote, endsInQuote_append, hopen]
    show endsInQuote ',' '"' false v.toList = _
    exact endsInQuote_plain hv.plain
  · rw [parseToken_keyed_iff hname.ne_nil hname.trimmed hname.no_eq, trimEnd_eq_self hr, hr]
    have hwhole := hquoted (name.toList ++ ['='])
    rw [List.append_assoc] at hwhole
    have hunquoted := hquoted []
    rw [List.nil_append] at hunquoted
    have hsel := hname.selector
    rw [String.ofList_toList] at hsel ⊢
    refine ⟨hl, hname.no_slash, hname.no_op, hwhole, hsel, ?_⟩
    rw [unquote, if_neg (by simp [hunquoted]), parsePattern_substring_iff]
    refine ⟨by simp, ?_⟩
    rw [lowered]
    congr 1
    refine String.toList_inj.mp (Eq.trans ?_ String.toList_ofList.symm)
    rw [String.toList_append]
    rfl

/-- **When a selector is claimed for every field that can be reached**, and
reaches it. -/
theorem selector_reaches_iff (env : ParseEnv) (name : String) :
    ((∀ s, additionalFieldSelector env name = some s → ∀ v, PlainValue v →
        parseFilter env (s ++ "=" ++ v) =
          .ok (.qualifiers [.selectorPattern (.additionalField name) (.substring (env.toLowercase v))])) ∧
      ((∃ s, Reaches env name s) → (additionalFieldSelector env name).isSome)) ↔
      name ≠ "l" ∧ ¬ LeavesQuoteOpen name := by
  have hsome : (additionalFieldSelector env name).isSome ↔
      Keyable name.toList ∧ parseSelector name = .additionalField name := by
    rw [Option.isSome_iff_exists]
    simp only [additionalFieldSelector_eq_some_iff]
    exact ⟨fun ⟨s, _, h⟩ => h, fun h => ⟨name, rfl, h⟩⟩
  constructor
  · rintro ⟨-, hback⟩
    refine ⟨?_, fun hopen => ?_⟩
    · rintro rfl
      exact (hsome.mp (hback ⟨_, reaches_l⟩)).1.ne_level rfl
    · have hclosed := closed_iff_endsInQuote.mp (hsome.mp (hback ⟨_, reaches_open hopen⟩)).1.closed
      rw [hopen.2] at hclosed
      cases hclosed
  · rintro ⟨hlevel, hopen⟩
    refine ⟨fun s hs v hv => ?_, fun ⟨s, hs⟩ => ?_⟩
    · obtain ⟨rfl, hkey, hsel⟩ := additionalFieldSelector_eq_some_iff.mp hs
      rw [hv.onField hkey, hsel]
    · have hname := name_of_reaches hs
      have hsel := hname.selector
      rw [String.ofList_toList] at hsel
      obtain ⟨b, hb⟩ := Option.isSome_iff_exists.mp hname.commas
      have hfalse : b = false := Bool.eq_false_iff.mpr fun h => hopen ⟨hname, h ▸ hb⟩
      subst hfalse
      refine hsome.mpr ⟨hname.keyable (fun h => hlevel ?_) hb, hsel⟩
      exact String.toList_inj.mp h

/-- A selector is claimed for every field that is reached by a name the filter
reads as it stands. -/
theorem selector_reaches_error_code :
    (∀ s, additionalFieldSelector ParseEnv.ascii "error code" = some s → ∀ v, PlainValue v →
        parseFilter ParseEnv.ascii (s ++ "=" ++ v) =
          .ok (.qualifiers [.selectorPattern (.additionalField "error code")
            (.substring (ParseEnv.ascii.toLowercase v))])) ∧
      ((∃ s, Reaches ParseEnv.ascii "error code" s) → (additionalFieldSelector ParseEnv.ascii "error code").isSome) :=
  (selector_reaches_iff ParseEnv.ascii "error code").mpr ⟨by decide, fun h => by cases h.2⟩

/-- A field named `l` has no selector, and is reached with a blank behind its
name. -/
theorem selector_misses_l :
    additionalFieldSelector ParseEnv.ascii "l" = none ∧ ∃ s, Reaches ParseEnv.ascii "l" s :=
  ⟨by decide, "l ", reaches_l⟩

/-! ### Values in quotes -/

/-- The selectors of the text fields: those of the parser's own table, and the
names of the additional fields that have one. -/
def TextKey (env : ParseEnv) (key : String) : Prop :=
  key ∈ ["m", "fm", "mfm", "h", "fa", "fi", "sn", "sv"] ∨ additionalFieldSelector env key = some key

theorem TextKey.keyable {key : String} (h : TextKey env key) : Keyable key.toList := by
  rcases h with h | h
  · have hall : ∀ k ∈ ["m", "fm", "mfm", "h", "fa", "fi", "sn", "sv"], k.toList ≠ [] ∧ trim k.toList = k.toList ∧
        '=' ∉ k.toList ∧ k.toList ≠ ['l'] ∧ k.toList.head? ≠ some '/' ∧
        (k.toList.getLast? ≠ some '>' ∧ k.toList.getLast? ≠ some '<') ∧ closed ',' '"' false k.toList = true := by
      decide
    obtain ⟨hne, htrim, heq, hl, hslash, hop, hclosed⟩ := hall key h
    exact ⟨hne, htrim, heq, hl, hslash, hop, hclosed⟩
  · exact (additionalFieldSelector_eq_some_iff.mp h).2.1

/-- The text of a value in quotes, under a selector. -/
theorem keyed_quoted (key v : String) :
    key ++ "=\"" ++ v ++ "\"" = String.ofList (key.toList ++ '=' :: '"' :: (v.toList ++ ['"'])) := by
  refine String.toList_inj.mp (Eq.trans ?_ String.toList_ofList.symm)
  rw [String.toList_append, String.toList_append, String.toList_append, List.append_assoc, List.append_assoc]
  rfl

/-- **When quotes make a value literal**: when neither it nor the name before
it begins as something else. -/
theorem quoted_literal_iff (env : ParseEnv) (key v : String) (hkey : TextKey env key) (hv : '"' ∉ v.toList) :
    (parseFilter env (key ++ "=\"" ++ v ++ "\"") =
        .ok (.qualifiers [.selectorPattern (parseSelector key) (.substring (env.toLowercase v))]) ∧
      parseFilter env ("\"" ++ v ++ "\"") = .ok (.qualifiers [.barePattern (.substring (env.toLowercase v))])) ↔
      v.toList.head? ≠ some '/' ∧ key.toList.head? ≠ some '"' := by
  have hlower : lowered env v.toList = env.toLowercase v := by rw [lowered, String.ofList_toList]
  have hbare : parseFilter env ("\"" ++ v ++ "\"") = .ok (.qualifiers [.barePattern (.substring (env.toLowercase v))]) := by
    have htext : "\"" ++ v ++ "\"" = String.ofList ('"' :: (v.toList ++ ['"'])) := by
      refine String.toList_inj.mp (Eq.trans ?_ String.toList_ofList.symm)
      rw [String.toList_append, String.toList_append]
      rfl
    rw [htext, parseFilter_quoted hv, hlower]
  have hname := hkey.keyable
  have hr := trim_wrap v.toList
  have hquoted : isQuoted (key.toList ++ '=' :: '"' :: (v.toList ++ ['"'])) = false ↔ key.toList.head? ≠ some '"' := by
    constructor
    · intro h hhead
      obtain ⟨rest, hrest⟩ := List.head?_eq_some_iff.mp hhead
      have hwrap := isQuoted_wrap (rest ++ '=' :: '"' :: v.toList)
      rw [List.append_assoc] at hwrap
      rw [hrest] at h
      cases hwrap.symm.trans h
    · intro h
      refine not_isQuoted (.inl ?_)
      rwa [List.head?_append_of_ne_nil _ hname.ne_nil]
  have hpattern : parsePattern env (unquote (trim ('"' :: (v.toList ++ ['"'])))) = .ok (.substring (env.toLowercase v)) ↔
      v.toList.head? ≠ some '/' := by
    rw [hr, unquote, if_pos (isQuoted_wrap _), inside_wrap, parsePattern_substring_iff, hlower]
    exact and_iff_left rfl
  have hclosed : closed ',' '"' false ('"' :: (v.toList ++ ['"'])) = true := by
    show closed ',' '"' true (v.toList ++ ['"']) = true
    rw [closed_inQuote_append hv]
    rfl
  rw [and_iff_left hbare, keyed_quoted, parseFilter_keyed_iff hname (trimEnd_eq_self hr) hclosed, hquoted, hpattern,
    String.ofList_toList, and_iff_right rfl, and_comm]

theorem quoted_literal_message :
    parseFilter ParseEnv.ascii "m=\"a>=b, c\"" =
        .ok (.qualifiers [.selectorPattern .message (.substring "a>=b, c")]) ∧
      parseFilter ParseEnv.ascii "\"a>=b, c\"" = .ok (.qualifiers [.barePattern (.substring "a>=b, c")]) :=
  (quoted_literal_iff ParseEnv.ascii "m" "a>=b, c" (.inl (by decide)) (by decide)).mpr ⟨by decide, by decide⟩

/-- A path in quotes is read as a regex. -/
theorem quoted_path_regex :
    parseFilter ParseEnv.ascii "m=\"/etc/\"" = .ok (.qualifiers [.selectorPattern .message (.regex "etc" false)]) ∧
      parseFilter ParseEnv.ascii "m=\"/etc/\"" ≠
        .ok (.qualifiers [.selectorPattern .message (.substring (ParseEnv.ascii.toLowercase "/etc/"))]) := by
  decide

end Logmon
