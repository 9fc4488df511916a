/-
# The canonical form of a filter

`collector/diff.rs`: two arms measured one population when their filters have
the same canonical form, the sorted texts of their qualifiers. A text names
the kind of qualifier, the selector and the pattern, joined by colons.

Every part of a text can be read back but one: an additional field's name is
lowercased and may itself hold a colon, so two different fields can give one
text (`Qualifier.ReadsLike`), while a span's attribute is looked up by its
exact name. A span's attributes are independent of each other, so filters of
one canonical form have one population where they accept the same under every
attribute name, or match nothing at all (`canonical_decides_population`).

Key definitions: `canonicalFilter`, `canonicalQualifier`,
`Qualifier.ReadsLike`, `ParsedFilter.accepts`, `ParsedFilter.ToldApart`.
Key theorems: `hex16Text_injective`, `canonicalQualifier_cases`,
`matchesSpan_withText`, `canonical_decides_population`.
-/
import Logmon.Filter.Parse
import Logmon.Filter.SpanMatcher
import Logmon.Lib.Hex

namespace Logmon

open Lib

/-! ### The canonical texts -/

/-- `Debug`. -/
def LevelOp.debugName : LevelOp → String
  | .eq => "Eq"
  | .gte => "Gte"
  | .lte => "Lte"

/-- `Debug`. -/
def BookmarkOp.debugName : BookmarkOp → String
  | .gte => "Gte"
  | .lte => "Lte"

/-- `Debug`. -/
def SeqOp.debugName : SeqOp → String
  | .gt => "Gt"
  | .lt => "Lt"

/-- `Debug`. -/
def Level.debugName : Level → String
  | .trace => "Trace"
  | .debug => "Debug"
  | .info => "Info"
  | .warn => "Warn"
  | .error => "Error"

/-- `Debug`, of a selector that is no additional field. -/
def Selector.debugName : Selector → String
  | .message => "Message"
  | .fullMessage => "FullMessage"
  | .messageOrFull => "MessageOrFull"
  | .host => "Host"
  | .facility => "Facility"
  | .file => "File"
  | .line => "Line"
  | .spanName => "SpanName"
  | .serviceName => "ServiceName"
  | .spanStatus => "SpanStatus"
  | .spanKind => "SpanKind"
  | .additionalField _ => "AdditionalField"

def DurationOp.word : DurationOp → String
  | .gte => "gte"
  | .lte => "lte"

/-- Sixteen lowercase hex digits. -/
def hex16Text (n : ℕ) : String := String.ofList ((List.range 16).map fun i => Nat.digitChar (n / 16 ^ (15 - i) % 16))

/-- The standard library's part in a canonical form: case mapping, and the bits
of a threshold (the model has one zero, and one text for it). -/
structure CanonEnv where
  toLowercase : String → String
  toBits : F64 → ℕ

section Canonical

variable (C : CanonEnv)

def canonicalPattern : Pattern → String
  | .substring s => "sub:" ++ C.toLowercase s
  | .regex source caseInsensitive => "re:" ++ (if caseInsensitive then "true" else "false") ++ ":" ++ source

def canonicalSelector : Selector → String
  | .additionalField f => "af:" ++ C.toLowercase f
  | other => other.debugName

def canonicalQualifier : Qualifier → String
  | .barePattern p => "bare:" ++ canonicalPattern C p
  | .selectorPattern s p => "sel:" ++ canonicalSelector C s ++ ":" ++ canonicalPattern C p
  | .levelFilter op level => "lvl:" ++ op.debugName ++ ":" ++ level.debugName
  | .durationFilter op v => "dur:" ++ op.word ++ ":" ++ hex16Text (C.toBits v)
  | .bookmarkFilter op name => "bm:" ++ op.debugName ++ ":" ++ name
  | .cursorFilter name => "cur:" ++ name
  | .seqFilter op value => "seq:" ++ op.debugName ++ ":" ++ toString value
  | .cursorSeq after => "curseq:" ++ toString after

def canonicalFilter : ParsedFilter → List String
  | .all => ["ALL"]
  | .none => ["NONE"]
  | .qualifiers qs => (qs.map (canonicalQualifier C)).mergeSort fun a b => decide (a ≤ b)

end Canonical

/-! ### Hex digits -/

theorem mod_pow_eq_of_digits {a b : ℕ} : ∀ {k : ℕ}, (∀ i < k, a / 16 ^ i % 16 = b / 16 ^ i % 16) →
    a % 16 ^ k = b % 16 ^ k
  | 0, _ => by rw [pow_zero, Nat.mod_one, Nat.mod_one]
  | k + 1, h => by
    rw [Nat.mod_pow_succ, Nat.mod_pow_succ, mod_pow_eq_of_digits fun i hi => h i (Nat.lt_succ_of_lt hi),
      h k (Nat.lt_succ_self k)]

/-- Sixteen digits tell 64 bits. -/
theorem hex16Text_injective {a b : ℕ} (ha : a < 2 ^ 64) (hb : b < 2 ^ 64) (h : hex16Text a = hex16Text b) : a = b := by
  have hmap := String.ofList_injective h
  have hdigits : ∀ i < 16, a / 16 ^ i % 16 = b / 16 ^ i % 16 := by
    intro i hi
    have hat := congrArg (fun l => l[15 - i]?) hmap
    have hlt : 15 - i < 16 := by omega
    have hback : 15 - (15 - i) = i := by omega
    simp only [List.getElem?_map, List.getElem?_range hlt, Option.map_some, hback] at hat
    exact digitChar_injective (Nat.mod_lt _ (by decide)) (Nat.mod_lt _ (by decide)) (Option.some.inj hat)
  have hmod : a % 2 ^ 64 = b % 2 ^ 64 := mod_pow_eq_of_digits hdigits
  rwa [Nat.mod_eq_of_lt ha, Nat.mod_eq_of_lt hb] at hmod

/-! ### Reading a text back -/

/-- A selector the canonical form names as it is. -/
def Selector.isNamed : Selector → Bool
  | .additionalField _ => false
  | _ => true

theorem colon_not_mem_debugName (s : Selector) : ':' ∉ s.debugName.toList := by
  cases s with
  | additionalField name => show ':' ∉ "AdditionalField".toList; decide
  | _ => decide

theorem levelName_injective {l m : Level} (h : l.debugName = m.debugName) : l = m := by
  cases l <;> cases m <;> first | rfl | simp [Level.debugName] at h

theorem debugName_injective {s t : Selector} (hs : s.isNamed = true) (ht : t.isNamed = true)
    (h : s.debugName = t.debugName) : s = t := by
  cases s <;> cases t <;> simp_all [Selector.isNamed, Selector.debugName]

variable {C : CanonEnv}

/-- The pattern text is a substring's, or a regex' with its flag. -/
theorem canonicalPattern_cases {p p' : Pattern} (h : canonicalPattern C p = canonicalPattern C p') :
    (∃ s t, p = .substring s ∧ p' = .substring t ∧ C.toLowercase s = C.toLowercase t) ∨ p = p' := by
  have hlist := congrArg String.toList h
  cases p with
  | substring s =>
    cases p' with
    | substring t =>
      refine .inl ⟨s, t, rfl, rfl, ?_⟩
      simp only [canonicalPattern, String.toList_append, List.append_cancel_left_eq] at hlist
      exact String.toList_injective hlist
    | regex source ci => simp [canonicalPattern] at hlist
  | regex source ci =>
    cases p' with
    | substring t => simp [canonicalPattern] at hlist
    | regex source' ci' =>
      refine .inr ?_
      cases ci <;> cases ci' <;> simp [canonicalPattern] at hlist <;> rw [String.toList_injective hlist]

/-- The two qualifiers ask different additional fields, or the same, and still
read the same: names lowercased, each joined to its pattern by a colon. -/
def Qualifier.ReadsLike (C : CanonEnv) : Qualifier → Qualifier → Prop
  | .selectorPattern (.additionalField a) p, .selectorPattern (.additionalField b) p' =>
    C.toLowercase a ++ ":" ++ canonicalPattern C p = C.toLowercase b ++ ":" ++ canonicalPattern C p'
  | _, _ => False

/-- The first colon ends a named selector. -/
theorem splitOnce_named {s : Selector} (hs : s.isNamed = true) (rest : List Char) :
    splitOnce ':' ((canonicalSelector C s).toList ++ ':' :: rest) = some (s.debugName.toList, rest) := by
  cases s with
  | additionalField f => cases hs
  | _ => exact splitOnce_append rest (colon_not_mem_debugName _)

/-- An additional field's text goes on after its mark. -/
theorem splitOnce_field (f : String) (rest : List Char) :
    splitOnce ':' ((canonicalSelector C (.additionalField f)).toList ++ ':' :: rest) =
      some ("af".toList, (C.toLowercase f).toList ++ ':' :: rest) := by
  have hlist : (canonicalSelector C (.additionalField f)).toList ++ ':' :: rest =
      "af".toList ++ ':' :: ((C.toLowercase f).toList ++ ':' :: rest) := by
    simp [canonicalSelector]
  rw [hlist]
  exact splitOnce_append _ (by decide)

theorem debugName_ne_af (s : Selector) : s.debugName.toList ≠ "af".toList := by
  cases s with
  | additionalField name => show "AdditionalField".toList ≠ "af".toList; decide
  | _ => decide

theorem Selector.named_or_field (s : Selector) : s.isNamed = true ∨ ∃ f, s = .additionalField f := by
  cases s with
  | additionalField f => exact .inr ⟨f, rfl⟩
  | _ => exact .inl rfl

/-- A selector text tells its selector and pattern, but for the bounds of an
additional field's name. -/
theorem selectorText_cases {s s' : Selector} {p p' : Pattern}
    (h : canonicalQualifier C (.selectorPattern s p) = canonicalQualifier C (.selectorPattern s' p')) :
    (s = s' ∧ canonicalPattern C p = canonicalPattern C p') ∨
      Qualifier.ReadsLike C (.selectorPattern s p) (.selectorPattern s' p') := by
  have hlist := congrArg String.toList h
  have hcolon : ":".toList = [':'] := rfl
  simp only [canonicalQualifier, String.toList_append, List.append_assoc, List.append_cancel_left_eq, hcolon,
    List.singleton_append] at hlist
  have hsplit := congrArg (splitOnce ':') hlist
  rcases s.named_or_field with hs | ⟨f, rfl⟩ <;> rcases s'.named_or_field with hs' | ⟨f', rfl⟩
  · rw [splitOnce_named hs, splitOnce_named hs'] at hsplit
    obtain ⟨hname, hpat⟩ := Prod.mk.inj (Option.some.inj hsplit)
    exact .inl ⟨debugName_injective hs hs' (String.toList_injective hname), String.toList_injective hpat⟩
  · rw [splitOnce_named hs, splitOnce_field] at hsplit
    exact absurd (Prod.mk.inj (Option.some.inj hsplit)).1 (debugName_ne_af s)
  · rw [splitOnce_field, splitOnce_named hs'] at hsplit
    exact absurd (Prod.mk.inj (Option.some.inj hsplit)).1.symm (debugName_ne_af s')
  · rw [splitOnce_field, splitOnce_field] at hsplit
    have hread := (Prod.mk.inj (Option.some.inj hsplit)).2
    refine .inr (String.toList_injective ?_)
    simpa only [String.toList_append, hcolon, List.append_assoc, List.singleton_append] using hread

/-! ### What the parser writes -/

/-- A substring is stored lowercased. -/
def Pattern.Stored (lower : String → String) : Pattern → Prop
  | .substring s => ∃ t, s = lower t
  | .regex _ _ => True

/-- What the parser stores of one qualifier: patterns lowercased, a threshold it
read, and no internal bound. -/
def Qualifier.Stored (env : ParseEnv) : Qualifier → Prop
  | .barePattern p => p.Stored env.toLowercase
  | .selectorPattern _ p => p.Stored env.toLowercase
  | .durationFilter _ ms => ∃ t, env.parseF64 t = some ms
  | .seqFilter _ _ => False
  | .cursorSeq _ => False
  | _ => True

variable {env : ParseEnv}

theorem PatternOf.stored {l : List Char} {p : Pattern} (h : PatternOf env l p) : p.Stored env.toLowercase := by
  obtain ⟨k, -, rfl | hp⟩ := h
  · exact ⟨_, rfl⟩
  · unfold parsePattern at hp
    split at hp
    · unfold parseRegex at hp
      dsimp only at hp
      split at hp
      · cases hp
      · obtain rfl := Except.ok.inj hp
        trivial
    · obtain rfl := Except.ok.inj hp
      exact ⟨_, rfl⟩

theorem parseToken_stored {token : List Char} {q : Qualifier} (h : parseToken env token = .ok q) : q.Stored env := by
  obtain ⟨_, _, rfl⟩ | ⟨_, t, _, hms, rfl⟩ | ⟨_, _, -, rfl⟩ | ⟨_, -, rfl⟩ | h := parseToken_cases h
  · trivial
  · exact ⟨t, hms⟩
  · trivial
  · trivial
  · obtain ⟨_, rfl, hp⟩ | ⟨_, _, _, -, rfl, hp⟩ := parsePlain_cases h
    · exact hp.stored
    · exact hp.stored

/-! ### Told apart -/

/-- What a canonical form needs of the standard library: lowercasing twice is
lowercasing once, and the bits of a threshold are its own. -/
structure CanonEnv.Lawful (C : CanonEnv) (env : ParseEnv) : Prop where
  lower_eq : C.toLowercase = env.toLowercase
  lower_lower : ∀ s, env.toLowercase (env.toLowercase s) = env.toLowercase s
  of_bits : ∀ text x, env.parseF64 text = some x → C.toBits x < 2 ^ 64 ∧ F64.ofBits (C.toBits x) = x

theorem pattern_eq_of_canonical (hC : C.Lawful env) {p p' : Pattern} (hp : p.Stored env.toLowercase)
    (hp' : p'.Stored env.toLowercase) (h : canonicalPattern C p = canonicalPattern C p') : p = p' := by
  obtain ⟨s, t, rfl, rfl, hst⟩ | heq := canonicalPattern_cases h
  · obtain ⟨x, rfl⟩ := hp
    obtain ⟨y, rfl⟩ := hp'
    rw [hC.lower_eq, hC.lower_lower, hC.lower_lower] at hst
    rw [hst]
  · exact heq

theorem threshold_eq_of_hex (hC : C.Lawful env) {x y : F64} (hx : ∃ t, env.parseF64 t = some x)
    (hy : ∃ t, env.parseF64 t = some y) (h : hex16Text (C.toBits x) = hex16Text (C.toBits y)) : x = y := by
  obtain ⟨t, ht⟩ := hx
  obtain ⟨u, hu⟩ := hy
  obtain ⟨hxlt, hxval⟩ := hC.of_bits t x ht
  obtain ⟨hylt, hyval⟩ := hC.of_bits u y hu
  rw [← hxval, ← hyval, hex16Text_injective hxlt hylt h]

/-- **Qualifiers of one text are the same**, or ask additional fields that read
alike. -/
theorem canonicalQualifier_cases (hC : C.Lawful env) {q r : Qualifier} (hq : q.Stored env) (hr : r.Stored env)
    (h : canonicalQualifier C q = canonicalQualifier C r) : q = r ∨ q.ReadsLike C r := by
  have hlist := congrArg String.toList h
  cases q with
  | barePattern p =>
    cases r with
    | barePattern p' =>
      simp only [canonicalQualifier, String.toList_append, List.append_cancel_left_eq] at hlist
      rw [pattern_eq_of_canonical hC hq hr (String.toList_injective hlist)]
      exact .inl rfl
    | _ => simp [canonicalQualifier] at hlist
  | selectorPattern s p =>
    cases r with
    | selectorPattern s' p' =>
      obtain ⟨rfl, hpat⟩ | hlike := selectorText_cases h
      · rw [pattern_eq_of_canonical hC hq hr hpat]
        exact .inl rfl
      · exact .inr hlike
    | _ => simp [canonicalQualifier] at hlist
  | levelFilter op level =>
    cases r with
    | levelFilter op' level' =>
      have hboth : op = op' ∧ level.debugName = level'.debugName := by
        cases op <;> cases op' <;> simp [canonicalQualifier, LevelOp.debugName] at hlist ⊢ <;>
          exact String.toList_injective hlist
      rw [hboth.1, levelName_injective hboth.2]
      exact .inl rfl
    | _ => simp [canonicalQualifier] at hlist
  | durationFilter op ms =>
    cases r with
    | durationFilter op' ms' =>
      have hboth : op = op' ∧ hex16Text (C.toBits ms) = hex16Text (C.toBits ms') := by
        cases op <;> cases op' <;> simp [canonicalQualifier, DurationOp.word] at hlist ⊢ <;>
          exact String.toList_injective hlist
      rw [hboth.1, threshold_eq_of_hex hC hq hr hboth.2]
      exact .inl rfl
    | _ => simp [canonicalQualifier] at hlist
  | bookmarkFilter op name =>
    cases r with
    | bookmarkFilter op' name' =>
      left
      cases op <;> cases op' <;> simp [canonicalQualifier, BookmarkOp.debugName] at hlist ⊢ <;>
        exact String.toList_injective hlist
    | _ => simp [canonicalQualifier] at hlist
  | cursorFilter name =>
    cases r with
    | cursorFilter name' =>
      simp only [canonicalQualifier, String.toList_append, List.append_cancel_left_eq] at hlist
      rw [String.toList_injective hlist]
      exact .inl rfl
    | cursorSeq after => exact hr.elim
    | _ => simp [canonicalQualifier] at hlist
  | seqFilter op v => exact hq.elim
  | cursorSeq after => exact hq.elim

/-- What a span has under an additional field's name, if it is a text. -/
def SpanEntry.textAt (span : SpanEntry) (key : String) : Option String := (span.attributes.lookup key).bind JsonValue.asStr

/-- What the filter asks under the name is met by this text, or by none. -/
def ParsedFilter.accepts (E : TextEnv) (f : ParsedFilter) (key : String) (value : Option String) : Bool :=
  f.listed.all fun q => match q with
    | .selectorPattern (.additionalField k) p => k != key || matchesOpt E p value
    | _ => true

def ParsedFilter.MatchesNothing (E : TextEnv) (f : ParsedFilter) : Prop := ∀ span, matchesSpan E f span = false

/-- Additional fields that read alike across the two filters are asked for by
both. -/
def ParsedFilter.ToldApart (C : CanonEnv) (f g : ParsedFilter) : Prop :=
  ∀ q ∈ f.listed, ∀ r ∈ g.listed, q.ReadsLike C r → q ∈ g.listed ∧ r ∈ f.listed

/-- Filters of one canonical form match the same spans. -/
def ParsedFilter.SamePopulation (C : CanonEnv) (E : TextEnv) (f g : ParsedFilter) : Prop :=
  canonicalFilter C f = canonicalFilter C g → ∀ span, matchesSpan E f span = matchesSpan E g span

theorem canonicalQualifier_ne_word (q : Qualifier) :
    canonicalQualifier C q ≠ "ALL" ∧ canonicalQualifier C q ≠ "NONE" := by
  constructor <;> intro h <;> have hlist := congrArg String.toList h <;> cases q <;> simp [canonicalQualifier] at hlist

theorem mem_canonicalFilter {qs : List Qualifier} {text : String} :
    text ∈ canonicalFilter C (.qualifiers qs) ↔ ∃ q ∈ qs, canonicalQualifier C q = text := by
  simp [canonicalFilter]

theorem stored_of_parse {input : String} {f : ParsedFilter} (h : parseFilter env input = .ok f) :
    ∀ q ∈ f.listed, q.Stored env := by
  obtain rfl | rfl | ⟨tokens, qs, hqs, -, -, -, rfl⟩ := parseFilter_cases h
  · exact fun q hq => (nomatch hq)
  · exact fun q hq => (nomatch hq)
  · exact parseTokens_forall parseToken_stored hqs

/-- Filters of one canonical form are both a word, or both lists. -/
theorem canonicalFilter_cases {f g : ParsedFilter} (h : canonicalFilter C f = canonicalFilter C g) :
    f = g ∨ ∃ qs rs, f = .qualifiers qs ∧ g = .qualifiers rs := by
  have hword : ∀ {qs : List Qualifier} {word : String}, word = "ALL" ∨ word = "NONE" →
      [word] ≠ canonicalFilter C (.qualifiers qs) := by
    intro qs word hw heq
    obtain ⟨q, -, hq⟩ := mem_canonicalFilter.mp (heq ▸ List.mem_singleton_self word)
    rcases hw with rfl | rfl
    · exact (canonicalQualifier_ne_word q).1 hq
    · exact (canonicalQualifier_ne_word q).2 hq
  cases f with
  | all =>
    cases g with
    | all => exact .inl rfl
    | none => simp [canonicalFilter] at h
    | qualifiers rs => exact absurd h (hword (.inl rfl))
  | none =>
    cases g with
    | all => simp [canonicalFilter] at h
    | none => exact .inl rfl
    | qualifiers rs => exact absurd h (hword (.inr rfl))
  | qualifiers qs =>
    cases g with
    | all => exact absurd h.symm (hword (.inl rfl))
    | none => exact absurd h.symm (hword (.inr rfl))
    | qualifiers rs => exact .inr ⟨qs, rs, rfl, rfl⟩

/-- A qualifier of a filter is one of the other's, or reads like one of them,
when their texts are the same. -/
theorem listed_cases (hC : C.Lawful env) {qs rs : List Qualifier} (hqs : ∀ q ∈ qs, q.Stored env)
    (hrs : ∀ r ∈ rs, r.Stored env) (h : canonicalFilter C (.qualifiers qs) = canonicalFilter C (.qualifiers rs))
    {q : Qualifier} (hq : q ∈ qs) : q ∈ rs ∨ ∃ r ∈ rs, q.ReadsLike C r := by
  have htext : canonicalQualifier C q ∈ canonicalFilter C (.qualifiers rs) := h ▸ mem_canonicalFilter.mpr ⟨q, hq, rfl⟩
  obtain ⟨r, hr, htext⟩ := mem_canonicalFilter.mp htext
  rcases canonicalQualifier_cases hC (hqs q hq) (hrs r hr) htext.symm with rfl | hlike
  · exact .inl hr
  · exact .inr ⟨r, hr, hlike⟩

theorem Qualifier.ReadsLike.symm {q r : Qualifier} (h : q.ReadsLike C r) : r.ReadsLike C q := by
  unfold ReadsLike at h
  split at h
  · exact Eq.symm h
  · exact h.elim

/-! ### One attribute of a span -/

/-- The span with this text under the name, or with nothing there. -/
def SpanEntry.withText (span : SpanEntry) (key : String) (value : Option String) : SpanEntry :=
  { span with attributes := (value.map fun t => (key, JsonValue.string t)).toList ++ span.attributes.filter (·.1 != key) }

theorem lookup_filter_ne {l : List (String × JsonValue)} {key k : String} :
    (l.filter (·.1 != key)).lookup k = if k = key then none else l.lookup k := by
  induction l with
  | nil => simp
  | cons a l ih =>
    by_cases ha : a.1 = key
    · rw [List.filter_cons_of_neg (by simpa using ha), ih]
      split_ifs with hk
      · rfl
      · have hne : (k == a.1) = false := beq_eq_false_iff_ne.mpr fun h => hk (h.trans ha)
        rw [List.lookup_cons, hne]
    · rw [List.filter_cons_of_pos (by simpa using ha), List.lookup_cons, List.lookup_cons, ih]
      by_cases hka : k = a.1
      · have hne : ¬ k = key := fun h => ha (hka.symm.trans h)
        simp [hka, ha]
      · have hbeq : (k == a.1) = false := beq_eq_false_iff_ne.mpr hka
        rw [hbeq]

theorem textAt_withText (span : SpanEntry) (key k : String) (value : Option String) :
    (span.withText key value).textAt k = if k = key then value else span.textAt k := by
  unfold SpanEntry.withText SpanEntry.textAt
  cases value with
  | none =>
    rw [Option.map_none, Option.toList_none, List.nil_append, lookup_filter_ne]
    split_ifs <;> rfl
  | some t =>
    rw [Option.map_some, Option.toList_some, List.singleton_append, List.lookup_cons]
    by_cases hk : k = key
    · simp [hk, JsonValue.asStr]
    · have hne : (k == key) = false := beq_eq_false_iff_ne.mpr hk
      rw [hne, if_neg hk, lookup_filter_ne, if_neg hk]

/-- A qualifier on no additional field. -/
def Qualifier.OffFields (q : Qualifier) : Prop := ∀ k p, q ≠ .selectorPattern (.additionalField k) p

theorem Qualifier.field_or_off (q : Qualifier) : (∃ k p, q = .selectorPattern (.additionalField k) p) ∨ q.OffFields := by
  by_cases h : ∃ k p, q = .selectorPattern (.additionalField k) p
  · exact .inl h
  · exact .inr fun k p hq => h ⟨k, p, hq⟩

theorem matchesSpanQualifier_field (E : TextEnv) (k : String) (p : Pattern) (span : SpanEntry) :
    matchesSpanQualifier E (.selectorPattern (.additionalField k) p) span = matchesOpt E p (span.textAt k) := rfl

/-- The other qualifiers read no attribute. -/
theorem matchesSpanQualifier_withText (E : TextEnv) {q : Qualifier} (hq : q.OffFields) (span : SpanEntry) (key : String)
    (value : Option String) : matchesSpanQualifier E q (span.withText key value) = matchesSpanQualifier E q span := by
  cases q with
  | selectorPattern s p =>
    cases s with
    | additionalField k => exact absurd rfl (hq k p)
    | _ => rfl
  | durationFilter op ms => cases op <;> rfl
  | seqFilter op v => cases op <;> rfl
  | _ => rfl

variable {E : TextEnv} {f g : ParsedFilter}

theorem matchesSpan_iff_listed (hf : f ≠ .none) (span : SpanEntry) :
    matchesSpan E f span = true ↔ ∀ q ∈ f.listed, matchesSpanQualifier E q span = true := by
  cases f with
  | all => simp [matchesSpan, ParsedFilter.listed]
  | none => exact absurd rfl hf
  | qualifiers qs => simp [matchesSpan, ParsedFilter.listed]

theorem accepts_iff {key : String} {value : Option String} : f.accepts E key value = true ↔
    ∀ p, .selectorPattern (.additionalField key) p ∈ f.listed → matchesOpt E p value = true := by
  unfold ParsedFilter.accepts
  rw [List.all_eq_true]
  refine ⟨fun h p hp => by simpa using h _ hp, fun h q hq => ?_⟩
  obtain ⟨k, p, rfl⟩ | hoff := q.field_or_off
  · by_cases hk : k = key
    · subst hk
      simp [h p hq]
    · simp [hk]
  · split
    · rename_i k p
      exact absurd rfl (hoff k p)
    · rfl

/-- A span that matches may have any text under a name that the filter
accepts there, and no other. -/
theorem matchesSpan_withText {span : SpanEntry} (h : matchesSpan E f span = true) (key : String) (value : Option String) :
    matchesSpan E f (span.withText key value) = f.accepts E key value := by
  have hf : f ≠ .none := by
    rintro rfl
    cases h
  rw [matchesSpan_iff_listed hf] at h
  rw [Bool.eq_iff_iff, matchesSpan_iff_listed hf, accepts_iff]
  constructor
  · intro hall p hp
    have := hall _ hp
    rwa [matchesSpanQualifier_field, textAt_withText, if_pos rfl] at this
  · intro hacc q hq
    obtain ⟨k, p, rfl⟩ | hoff := q.field_or_off
    · rw [matchesSpanQualifier_field, textAt_withText]
      split_ifs with hk
      · exact hacc p (hk ▸ hq)
      · exact h _ hq
    · rw [matchesSpanQualifier_withText E hoff]
      exact h q hq

/-- What a matching span has under a name is accepted there. -/
theorem accepts_of_matchesSpan {span : SpanEntry} (h : matchesSpan E f span = true) (key : String) :
    f.accepts E key (span.textAt key) = true := by
  have hf : f ≠ .none := by
    rintro rfl
    cases h
  rw [accepts_iff]
  exact fun p hp => (matchesSpan_iff_listed hf span).mp h _ hp

/-! ### One population -/

/-- Of two filters that accept the same under every name, and share what else
they ask, one matches what the other does. -/
theorem matchesSpan_of_accepts (hf : f ≠ .none) (hg : g ≠ .none) (hoff : ∀ q ∈ f.listed, q.OffFields → q ∈ g.listed)
    (hacc : ∀ key value, g.accepts E key value = true → f.accepts E key value = true) {span : SpanEntry}
    (h : matchesSpan E g span = true) : matchesSpan E f span = true := by
  rw [matchesSpan_iff_listed hf]
  intro q hq
  obtain ⟨k, p, rfl⟩ | hq' := q.field_or_off
  · exact accepts_iff.mp (hacc k _ (accepts_of_matchesSpan h k)) p hq
  · exact (matchesSpan_iff_listed hg span).mp h q (hoff q hq hq')

/-- Told apart, the two have the same qualifiers. -/
theorem samePopulation_of_toldApart (E : TextEnv) (hC : C.Lawful env) {t u : String} {f g : ParsedFilter}
    (hf : parseFilter env t = .ok f) (hg : parseFilter env u = .ok g) (happart : f.ToldApart C g) :
    f.SamePopulation C E g := by
  intro hcanon span
  have hfs := stored_of_parse hf
  have hgs := stored_of_parse hg
  obtain rfl | ⟨qs, rs, rfl, rfl⟩ := canonicalFilter_cases hcanon
  · rfl
  · refine matchesSpan_congr E (fun q => ⟨fun hq => ?_, fun hq => ?_⟩) span
    · exact (listed_cases hC hfs hgs hcanon hq).elim id fun ⟨r, hr, hlike⟩ => (happart q hq r hr hlike).1
    · exact (listed_cases hC hgs hfs hcanon.symm hq).elim id fun ⟨r, hr, hlike⟩ => (happart r hr q hq hlike.symm).2

/-- **When canonical filters decide the population.** Two filters the parser
makes match the same spans if they have one canonical form, exactly when then
neither matches any span or they accept the same under every attribute name;
so where additional fields that read alike are asked for by both. -/
theorem canonical_decides_population (E : TextEnv) (hC : C.Lawful env) {t u : String} {f g : ParsedFilter}
    (hf : parseFilter env t = .ok f) (hg : parseFilter env u = .ok g) :
    (f.SamePopulation C E g ↔ (canonicalFilter C f = canonicalFilter C g →
      (f.MatchesNothing E ∧ g.MatchesNothing E) ∨ ∀ key value, f.accepts E key value = g.accepts E key value)) ∧
    (f.ToldApart C g → f.SamePopulation C E g) := by
  refine ⟨forall_congr' fun hcanon => ⟨fun hsame => ?_, fun h span => ?_⟩, samePopulation_of_toldApart E hC hf hg⟩
  · by_cases hnone : f.MatchesNothing E
    · exact .inl ⟨hnone, fun span => (hsame span).symm.trans (hnone span)⟩
    · -- a span that both match, with what is asked about under the name
      obtain ⟨span, hspan⟩ := not_forall.mp hnone
      have hspan : matchesSpan E f span = true := by simpa using hspan
      refine .inr fun key value => ?_
      rw [← matchesSpan_withText hspan, ← matchesSpan_withText (hsame span ▸ hspan)]
      exact hsame _
  · rcases h with ⟨hf, hg⟩ | hacc
    · rw [hf span, hg span]
    · have hfs := stored_of_parse hf
      have hgs := stored_of_parse hg
      obtain rfl | ⟨qs, rs, rfl, rfl⟩ := canonicalFilter_cases hcanon
      · rfl
      have hoff : ∀ {qs rs : List Qualifier}, (∀ q ∈ qs, q.Stored env) → (∀ r ∈ rs, r.Stored env) →
          canonicalFilter C (.qualifiers qs) = canonicalFilter C (.qualifiers rs) →
          ∀ q ∈ qs, q.OffFields → q ∈ rs := by
        intro qs rs hqs hrs hcanon q hq hq'
        refine (listed_cases hC hqs hrs hcanon hq).resolve_right ?_
        rintro ⟨r, -, hlike⟩
        unfold Qualifier.ReadsLike at hlike
        split at hlike
        · exact hq' _ _ rfl
        · exact hlike
      rw [Bool.eq_iff_iff]
      exact ⟨matchesSpan_of_accepts (by simp) (by simp) (hoff hgs hfs hcanon.symm) fun key value => by rw [hacc]; exact id,
        matchesSpan_of_accepts (by simp) (by simp) (hoff hfs hgs hcanon) fun key value => by rw [hacc]; exact id⟩

/-- ASCII text, and no threshold. -/
def CanonEnv.ascii : CanonEnv := ⟨ParseEnv.ascii.toLowercase, fun _ => 0⟩

theorem toLower_toLower (c : Char) : c.toLower.toLower = c.toLower := by
  by_cases hupper : c.val ≥ 'A'.val ∧ c.val ≤ 'Z'.val
  · have hval : c.toLower.val = c.val + ('a'.val - 'A'.val) := congrArg Char.val (dif_pos hupper)
    refine dif_neg ?_
    rintro ⟨-, hle⟩
    have ha : 'A'.val.toNat = 65 := rfl
    have hz : 'Z'.val.toNat = 90 := rfl
    have hshift : ('a'.val - 'A'.val).toNat = 32 := rfl
    rw [hval] at hle
    simp only [ge_iff_le, UInt32.le_iff_toNat_le, UInt32.toNat_add, ha, hz, hshift] at hupper hle
    omega
  · have hself : c.toLower = c := dif_neg hupper
    rw [hself, hself]

theorem CanonEnv.lawful_ascii : CanonEnv.ascii.Lawful .ascii where
  lower_eq := rfl
  lower_lower s := by
    show String.ofList ((String.ofList (s.toList.map Char.toLower)).toList.map Char.toLower) = _
    rw [String.toList_ofList, List.map_map]
    refine congrArg String.ofList (List.map_congr_left fun c _ => ?_)
    exact toLower_toLower c
  of_bits text x h := nomatch h

/-- The matcher over ASCII text, regexes being plain words. -/
def TextEnv.plain : TextEnv := { TextEnv.ascii with toLowercase := ParseEnv.ascii.toLowercase }

/-- The filter of one additional field and one word. -/
def fieldFilter (key word : String) : ParsedFilter :=
  .qualifiers [.selectorPattern (.additionalField key) (.substring word)]

/-- The filter of two additional fields and one word. -/
def twoFieldsFilter (key key' word : String) : ParsedFilter :=
  .qualifiers [.selectorPattern (.additionalField key) (.substring word), .selectorPattern (.additionalField key') (.substring word)]

/-- Two fields that differ in case, asked for in either order: one canonical
form, and one population, which has spans. -/
theorem canonical_decides_population_get :
    parseFilter .ascii "http.Method=GET,http.method=get" = .ok (twoFieldsFilter "http.Method" "http.method" "get") ∧
      parseFilter .ascii "http.method=get,http.Method=get" = .ok (twoFieldsFilter "http.method" "http.Method" "get") ∧
      canonicalFilter .ascii (twoFieldsFilter "http.Method" "http.method" "get") =
        canonicalFilter .ascii (twoFieldsFilter "http.method" "http.Method" "get") ∧
      (∀ span, matchesSpan .plain (twoFieldsFilter "http.Method" "http.method" "get") span =
        matchesSpan .plain (twoFieldsFilter "http.method" "http.Method" "get") span) ∧
      ¬ (twoFieldsFilter "http.Method" "http.method" "get").MatchesNothing .plain := by
  have hupper : parseFilter .ascii "http.Method=GET,http.method=get" = .ok (twoFieldsFilter "http.Method" "http.method" "get") := by
    decide
  have hlower : parseFilter .ascii "http.method=get,http.Method=get" = .ok (twoFieldsFilter "http.method" "http.Method" "get") := by
    decide
  have htexts : (["http.Method", "http.method"].map fun k =>
      canonicalQualifier .ascii (.selectorPattern (.additionalField k) (.substring "get"))) =
      ["http.method", "http.Method"].map fun k =>
        canonicalQualifier .ascii (.selectorPattern (.additionalField k) (.substring "get")) := by
    decide
  have hcanon : canonicalFilter .ascii (twoFieldsFilter "http.Method" "http.method" "get") =
      canonicalFilter .ascii (twoFieldsFilter "http.method" "http.Method" "get") :=
    congrArg (fun l => l.mergeSort fun a b : String => decide (a ≤ b)) htexts
  have hsame := (canonical_decides_population .plain CanonEnv.lawful_ascii hupper hlower).1.mpr fun _ => .inr fun key value => by
    rw [Bool.eq_iff_iff, accepts_iff, accepts_iff]
    simp only [twoFieldsFilter, ParsedFilter.listed, List.mem_cons, List.not_mem_nil, or_false]
    exact forall_congr' fun p => by rw [or_comm]
  refine ⟨hupper, hlower, hcanon, hsame hcanon, fun hnone => ?_⟩
  have := hnone { spanWith "http.Method" "GET" with attributes := [("http.Method", .string "GET"), ("http.method", .string "get")] }
  exact absurd this (by decide)

/-- Two fields that differ in case, and two that a colon makes read alike: each
two filters have one canonical form, and a span only the first of them matches. -/
theorem canonical_form_of_two_fields :
    (parseFilter .ascii "http.Method=get" = .ok (fieldFilter "http.Method" "get") ∧
      parseFilter .ascii "http.method=get" = .ok (fieldFilter "http.method" "get") ∧
      ¬ (fieldFilter "http.Method" "get").SamePopulation .ascii .plain (fieldFilter "http.method" "get")) ∧
    parseFilter .ascii "a:sub:b=c" = .ok (fieldFilter "a:sub:b" "c") ∧
      parseFilter .ascii "a=b:sub:c" = .ok (fieldFilter "a" "b:sub:c") ∧
      ¬ (fieldFilter "a:sub:b" "c").SamePopulation .ascii .plain (fieldFilter "a" "b:sub:c") := by
  have hcanon : ∀ {key word key' word' : String},
      canonicalQualifier .ascii (.selectorPattern (.additionalField key) (.substring word)) =
        canonicalQualifier .ascii (.selectorPattern (.additionalField key') (.substring word')) →
      canonicalFilter .ascii (fieldFilter key word) = canonicalFilter .ascii (fieldFilter key' word') := by
    intro key word key' word' h
    simp [canonicalFilter, fieldFilter, h]
  refine ⟨⟨by decide, by decide, fun h => ?_⟩, by decide, by decide, fun h => ?_⟩
  · have hspan := h (hcanon (by decide)) (spanWith "http.Method" "GET")
    exact absurd hspan (by decide)
  · have hspan := h (hcanon (by decide)) (spanWith "a:sub:b" "c")
    exact absurd hspan (by decide)

end Logmon
