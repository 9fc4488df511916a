/-
# What the filter builder builds is what the parser reads

The builder says that its strings round-trip cleanly through `parse_filter`.
They do exactly when the arguments of every call survive by themselves
(`buildOf_means_iff`): calls do not spoil one another, and cannot make up for
one another either. A call that is split at a comma of its own, or that
swallows the comma after it, changes how many separators there are to go
round, and as many qualifiers as calls would then need more commas than the
text has.

Key theorems: `rendered_commas`, `buildOf_means_iff`.
-/
import Logmon.Sdk.Reads

namespace Logmon
namespace Sdk

open Lib

variable {env : ParseEnv} {calls : List FilterCall}

/-! ### The text of a sequence -/

theorem foldl_qualifiers : ∀ (calls : List FilterCall) (b : FilterBuilder),
    (calls.foldl FilterBuilder.call b).qualifiers = b.qualifiers ++ calls.map FilterCall.rendered
  | [], b => by simp
  | c :: calls, b => by
    rw [List.foldl_cons, foldl_qualifiers calls, call_qualifiers, List.map_cons, List.append_assoc,
      List.singleton_append]

theorem intercalate_space (r : List Char) : ∀ rs : List (List Char),
    [',', ' '].intercalate (r :: rs) = [','].intercalate (r :: rs.map (' ' :: ·))
  | [] => rfl
  | s :: rs => by
    rw [List.intercalate_cons_cons, intercalate_space s rs, List.map_cons, intercalate_cons]
    cases rs with
    | nil => simp
    | cons t rs =>
      rw [List.map_cons, intercalate_cons, intercalate_cons]
      simp

/-- The fields of a sequence, as they are written: a space before each but the
first. -/
def written : List FilterCall → List (List Char)
  | [] => []
  | c :: calls => c.rendered.toList :: calls.map fun c => ' ' :: c.rendered.toList

theorem buildOf_toList (h : calls ≠ []) : (buildOf calls).toList = [','].intercalate (written calls) := by
  obtain ⟨c, calls, rfl⟩ := List.exists_cons_of_ne_nil h
  unfold buildOf FilterBuilder.build
  rw [foldl_qualifiers, if_neg (by simp [Filter.builder]), String.toList_intercalate]
  have hmap : (Filter.builder.qualifiers ++ (c :: calls).map FilterCall.rendered).map String.toList =
      c.rendered.toList :: calls.map fun c => c.rendered.toList := by
    simp [Filter.builder, Function.comp_def]
  rw [hmap]
  show [',', ' '].intercalate _ = _
  rw [intercalate_space, List.map_map]
  rfl

/-- Each field is a call's text, but for the space. -/
theorem written_forall₂ {P : List Char → FilterCall → Prop} (hP : ∀ c w, trim w = trim c.rendered.toList →
    w.count ',' = c.rendered.toList.count ',' → (CommasQuoted w ↔ CommasQuoted c.rendered.toList) → P w c) :
    ∀ calls, List.Forall₂ P (written calls) calls
  | [] => .nil
  | c :: calls => by
    have hspace : ∀ l, trim (' ' :: l) = trim l := by
      intro l
      have := trim_append (a := [' ']) (b := []) l (forall_mem_of_all (by decide)) (by simp)
      rwa [List.append_nil] at this
    refine .cons (hP c _ rfl rfl Iff.rfl) ?_
    rw [List.forall₂_map_left_iff]
    refine List.forall₂_same.mpr fun d _ => hP d _ (hspace _) ?_ ?_
    · rw [List.count_cons_of_ne (by decide)]
    · unfold CommasQuoted
      rw [closed, if_neg (by decide), if_neg (by decide)]

/-! ### Commas -/

theorem count_esc (s : String) : (esc s).toList.count ',' = s.toList.count ',' := by
  have hescaped : ∀ l : List Char, (escaped l).count ',' = l.count ',' := by
    intro l
    unfold escaped
    induction l with
    | nil => rfl
    | cons c l ih =>
      rw [List.flatMap_cons, List.count_append, ih, List.count_cons]
      by_cases hc : c = '"'
      · subst hc
        simp
      · rw [if_neg hc]
        simp [List.count_cons]
        omega
  by_cases hq : ',' ∈ s.toList ∨ '"' ∈ s.toList
  · rw [esc_quoted hq, List.count_cons_of_ne (by decide), List.count_append, hescaped]
    simp
  · rw [esc_plain (not_or.mp hq)]

theorem count_regexLit (r : String) (ci : Bool) : (regexLit r ci).toList.count ',' = (regexBody r).count ',' := by
  rw [regexLit_toList, List.count_cons_of_ne (by decide), List.count_append, List.count_cons_of_ne (by decide)]
  cases ci <;> simp

theorem count_start_word {start w : String} (hstart : start ∈ starts) (hw : ∀ c ∈ w.toList, c ≠ ',' ∧ c ≠ '"') :
    (start ++ w).toList.count ',' = 0 := by
  have hall : ∀ s ∈ starts, ',' ∉ s.toList := by decide
  rw [List.count_eq_zero, String.toList_append, List.mem_append]
  exact not_or.mpr ⟨hall start hstart, fun h => (hw _ h).1 rfl⟩

theorem count_keyed (key value : String) :
    (key ++ "=" ++ value).toList.count ',' = key.toList.count ',' + value.toList.count ',' := by
  rw [keyed_toList, List.count_append, List.count_cons_of_ne (by decide)]

theorem count_key {key : String} (hkey : key ∈ selectorNames) : key.toList.count ',' = 0 := by
  revert key
  decide

/-- **A call's text has the commas of its qualifier.** -/
theorem rendered_commas (henv : env.Documented) {c : FilterCall} {q : Qualifier} (hc : c.Allowed env)
    (hq : c.asked env = some q) : c.rendered.toList.count ',' ≤ q.commas := by
  have htext : ∀ s, (esc s).toList.count ',' ≤ (askedText env s).commas := by
    intro s
    rw [count_esc]
    exact (henv.lower_count s ',' (.inr (by simp))).ge
  have hregex : ∀ r ci, (regexLit r ci).toList.count ',' ≤ (askedRegex r ci).commas := by
    intro r ci
    rw [count_regexLit]
    show _ ≤ (String.ofList (regexBody r)).toList.count ','
    rw [String.toList_ofList]
  have hstart : ∀ {start w : String}, start ∈ starts → (∀ c ∈ w.toList, c ≠ ',' ∧ c ≠ '"') →
      (start ++ w).toList.count ',' ≤ q.commas := fun hs hw => (count_start_word hs hw).le.trans (Nat.zero_le _)
  have hlevel := fun l c hc => (level_plain l c hc).1
  have hnumber := fun n c hc => (number_plain n c hc).1
  have hname : ∀ {name : String}, isValidBookmarkToken name = true → ∀ c ∈ name.toList, c ≠ ',' ∧ c ≠ '"' :=
    fun h c hm => (isNameChar_plain ((mem_token h).2 c hm)).1
  cases c with
  | matchAll => cases hq
  | matchNone => cases hq
  | levelAtLeast l => exact @hstart "l>=" _ (by decide) (hlevel l)
  | levelAtMost l => exact @hstart "l<=" _ (by decide) (hlevel l)
  | levelEq l => exact @hstart "l=" _ (by decide) (hlevel l)
  | pattern sub =>
    obtain rfl := Option.some.inj hq
    exact htext sub
  | patternRegex regex ci =>
    obtain rfl := Option.some.inj hq
    exact hregex regex ci
  | text selector sub =>
    obtain rfl := Option.some.inj hq
    obtain ⟨key, hkey, -, htexts, -⟩ := selector.key
    rw [htexts, count_keyed, count_key hkey, Nat.zero_add]
    cases selector <;> exact htext sub
  | textRegex selector r ci =>
    obtain rfl := Option.some.inj hq
    obtain ⟨key, hkey, -, -, hregexes⟩ := selector.key
    rw [hregexes, count_keyed, count_key hkey, Nat.zero_add]
    cases selector <;> exact hregex r ci
  | line n =>
    have hcount : (toString n.toNat).toList.count ',' = 0 :=
      List.count_eq_zero.mpr fun hm => (hnumber n.toNat _ hm).1 rfl
    show ("ln" ++ "=" ++ toString n.toNat).toList.count ',' ≤ _
    rw [count_keyed, hcount]
    exact Nat.zero_le _
  | spanStatus s => cases s <;> exact Nat.zero_le _
  | spanKind k => cases k <;> exact Nat.zero_le _
  | durationAtLeastMs ms => exact @hstart "d>=" _ (by decide) (hnumber ms.toNat)
  | durationAtMostMs ms => exact @hstart "d<=" _ (by decide) (hnumber ms.toNat)
  | bookmarkAfter name => exact @hstart "b>=" _ (by decide) (hname hc)
  | bookmarkBefore name => exact @hstart "b<=" _ (by decide) (hname hc)
  | cursor name => exact @hstart "c>=" _ (by decide) (hname hc)
  | additionalField name value =>
    obtain rfl := Option.some.inj hq
    show (name ++ "=" ++ esc value).toList.count ',' ≤ _
    rw [count_keyed]
    exact Nat.add_le_add_left (htext value) _
  | additionalFieldRegex name regex ci =>
    obtain rfl := Option.some.inj hq
    show (name ++ "=" ++ regexLit regex ci).toList.count ',' ≤ _
    rw [count_keyed]
    exact Nat.add_le_add_left (hregex regex ci) _

/-! ### Blank texts and words -/

theorem mem_trim {c : Char} {l : List Char} (hc : isWhiteSpace c = false) (h : c ∈ l) : c ∈ trim l := by
  obtain ⟨a, b, hl, ha, hb⟩ := exists_trim l
  rw [hl, List.mem_append, List.mem_append] at h
  rcases h with h | h | h
  · exact absurd (ha c h) (by simp [hc])
  · exact h
  · exact absurd (hb c h) (by simp [hc])

/-- The text of a call that is no bare pattern has a mark that no word has. -/
theorem rendered_mark (c : FilterCall) (hq : (c.asked env).isSome) :
    (∃ sub, c = .pattern sub) ∨ '=' ∈ c.rendered.toList ∨ '/' ∈ c.rendered.toList := by
  have hstart : ∀ {start : String}, start ∈ starts → ∀ w : String, '=' ∈ (start ++ w).toList := by
    intro start hs w
    have hall : ∀ s ∈ starts, '=' ∈ s.toList := by decide
    rw [String.toList_append]
    exact List.mem_append_left _ (hall start hs)
  have hkeyed : ∀ key value : String, '=' ∈ (key ++ "=" ++ value).toList := by
    intro key value
    rw [keyed_toList]
    exact List.mem_append_right _ List.mem_cons_self
  cases c with
  | matchAll => cases hq
  | matchNone => cases hq
  | pattern sub => exact .inl ⟨sub, rfl⟩
  | patternRegex regex ci =>
    refine .inr (.inr ?_)
    show '/' ∈ (regexLit regex ci).toList
    rw [regexLit_toList]
    exact List.mem_cons_self
  | text selector sub =>
    obtain ⟨key, -, -, htexts, -⟩ := selector.key
    rw [htexts]
    exact .inr (.inl (hkeyed key _))
  | textRegex selector r ci =>
    obtain ⟨key, -, -, -, hregexes⟩ := selector.key
    rw [hregexes]
    exact .inr (.inl (hkeyed key _))
  | levelAtLeast l => exact .inr (.inl (@hstart "l>=" (by decide) _))
  | levelAtMost l => exact .inr (.inl (@hstart "l<=" (by decide) _))
  | levelEq l => exact .inr (.inl (@hstart "l=" (by decide) _))
  | line n => exact .inr (.inl (hkeyed "ln" _))
  | spanStatus s => exact .inr (.inl (hkeyed "st" _))
  | spanKind k => exact .inr (.inl (hkeyed "sk" _))
  | durationAtLeastMs ms => exact .inr (.inl (@hstart "d>=" (by decide) _))
  | durationAtMostMs ms => exact .inr (.inl (@hstart "d<=" (by decide) _))
  | bookmarkAfter name => exact .inr (.inl (@hstart "b>=" (by decide) _))
  | bookmarkBefore name => exact .inr (.inl (@hstart "b<=" (by decide) _))
  | cursor name => exact .inr (.inl (@hstart "c>=" (by decide) _))
  | additionalField name value => exact .inr (.inl (hkeyed name _))
  | additionalFieldRegex name regex ci => exact .inr (.inl (hkeyed name _))

theorem rendered_not_blank {c : FilterCall} {q : Qualifier} (hc : c.Allowed env) (hq : c.asked env = some q) :
    trim c.rendered.toList ≠ [] := by
  rcases rendered_mark c (by rw [hq]; rfl) with ⟨sub, rfl⟩ | h | h
  · show trim (esc sub).toList ≠ []
    by_cases hq : ',' ∈ sub.toList ∨ '"' ∈ sub.toList
    · rw [esc_quoted hq, trim_wrap]
      exact List.cons_ne_nil _ _
    · rw [esc_plain (not_or.mp hq)]
      exact hc
  · exact List.ne_nil_of_mem (mem_trim (by decide) h)
  · exact List.ne_nil_of_mem (mem_trim (by decide) h)

theorem buildOf_not_blank {c : FilterCall} {q : Qualifier} (hc : c.Allowed env) (hq : c.asked env = some q) :
    trim (buildOf (c :: calls)).toList ≠ [] := by
  obtain ⟨d, l, hl⟩ := List.exists_cons_of_ne_nil (rendered_not_blank hc hq)
  have hwhite : isWhiteSpace d = false := (trimmed_trim c.rendered.toList).1 d (by rw [hl]; rfl)
  have hmem : d ∈ c.rendered.toList := (trim_sublist _).subset (hl ▸ List.mem_cons_self)
  refine List.ne_nil_of_mem (mem_trim hwhite ?_)
  rw [buildOf_toList (List.cons_ne_nil c calls)]
  cases calls with
  | nil =>
    show d ∈ [','].intercalate [c.rendered.toList]
    rwa [List.intercalate_singleton]
  | cons e calls =>
    rw [written, List.map_cons, intercalate_cons]
    exact List.mem_append_left _ hmem

/-- A text that reads as one of the words is a lone pattern. -/
theorem not_word (hcalls : ∀ c ∈ calls, (c.asked env).isSome) (hsurvive : ∀ c ∈ calls, c.Survives)
    (hlone : ¬ LoneWord calls) (hne : calls ≠ []) : trim (buildOf calls).toList ≠ "ALL".toList ∧
      trim (buildOf calls).toList ≠ "NONE".toList := by
  have hmarks : ∀ c ∈ ['=', '/', ',', '"'], isWhiteSpace c = false ∧ c ∉ "ALL".toList ∧ c ∉ "NONE".toList :=
    forall_mem_of_all (by decide)
  have hmarked : ∀ c ∈ ['=', '/', ',', '"'], c ∈ (buildOf calls).toList →
      trim (buildOf calls).toList ≠ "ALL".toList ∧ trim (buildOf calls).toList ≠ "NONE".toList := by
    intro c hc hmem
    obtain ⟨hwhite, hall, hnone⟩ := hmarks c hc
    have := mem_trim hwhite hmem
    exact ⟨fun h => hall (h ▸ this), fun h => hnone (h ▸ this)⟩
  rw [buildOf_toList hne] at hmarked ⊢
  rcases calls with _ | ⟨c, _ | ⟨d, calls⟩⟩
  · exact absurd rfl hne
  · rw [written, List.map_nil, List.intercalate_singleton] at hmarked ⊢
    rcases rendered_mark c (hcalls c List.mem_cons_self) with ⟨sub, rfl⟩ | h | h
    · obtain ⟨-, hsub⟩ := hsurvive _ List.mem_cons_self
      have hrendered : (FilterCall.pattern sub).rendered = esc sub := rfl
      by_cases hq : ',' ∈ sub.toList ∨ '"' ∈ sub.toList
      · refine hmarked '"' (by decide) ?_
        rw [hrendered, esc_quoted hq]
        exact List.mem_cons_self
      · obtain ⟨htrim, -⟩ := hsub.resolve_left (not_or.mp hq).1
        rw [hrendered, esc_plain (not_or.mp hq), htrim]
        refine ⟨fun h => hlone (.inl ?_), fun h => hlone (.inr ?_)⟩
        · rw [String.toList_inj.mp h]
        · rw [String.toList_inj.mp h]
    · exact hmarked '=' (by decide) h
    · exact hmarked '/' (by decide) h
  · refine hmarked ',' (by decide) ?_
    rw [written, List.map_cons, intercalate_cons]
    exact List.mem_append_right _ List.mem_cons_self

/-! ### The sequence -/

theorem forall₂_comp {α β γ : Type} {R : α → β → Prop} {S : β → γ → Prop} {l : List α} {m : List β} {n : List γ}
    (h : List.Forall₂ R l m) (h' : List.Forall₂ S m n) : List.Forall₂ (fun a c => ∃ b, R a b ∧ S b c) l n := by
  induction h generalizing n with
  | nil =>
    obtain rfl := List.forall₂_nil_left_iff.mp h'
    exact .nil
  | cons hab _ ih =>
    obtain ⟨c, k, hbc, hk, rfl⟩ := List.forall₂_cons_left_iff.mp h'
    exact .cons ⟨_, hab, hbc⟩ (ih hk)

/-- A field of a sequence, against the call it is the text of. -/
def FieldOf (w : List Char) (c : FilterCall) : Prop :=
  trim w = trim c.rendered.toList ∧ w.count ',' = c.rendered.toList.count ',' ∧
    (CommasQuoted w ↔ CommasQuoted c.rendered.toList)

theorem written_fieldOf (calls : List FilterCall) : List.Forall₂ FieldOf (written calls) calls :=
  written_forall₂ (fun _ _ h1 h2 h3 => ⟨h1, h2, h3⟩) calls

theorem written_ne_nil (h : calls ≠ []) : written calls ≠ [] := by
  obtain ⟨c, calls, rfl⟩ := List.exists_cons_of_ne_nil h
  exact List.cons_ne_nil _ _

/-- The tokens of fields of which none is blank. -/
theorem tokensOf_eq {fs : List (List Char)} (h : ∀ f ∈ fs, trim f ≠ []) : tokensOf fs = fs.map trim := by
  unfold tokensOf
  rw [List.filter_eq_self]
  intro t ht
  obtain ⟨f, hf, rfl⟩ := List.mem_map.mp ht
  simpa using h f hf

/-- The tokens are those of a part of the fields. -/
theorem exists_tokens (fs : List (List Char)) : ∃ ks : List (List Char), ks.Sublist fs ∧ tokensOf fs = ks.map trim := by
  refine ⟨fs.filter ((fun t => !t.isEmpty) ∘ trim), List.filter_sublist, ?_⟩
  unfold tokensOf
  rw [List.filter_map]

/-- **As many fields as calls, each read as its call asks**: then every call
is read back by itself, and the other way round. -/
theorem fields_read_iff (henv : env.Documented) (hne : calls ≠ []) {qs : List Qualifier}
    (hasked : List.Forall₂ (fun c q => c.Allowed env ∧ c.asked env = some q) calls qs) :
    (∃ fs, commaFields ([','].intercalate (written calls)) = some fs ∧
        List.Forall₂ (fun t q => parseToken env t = .ok q) (tokensOf fs) qs) ↔ ∀ c ∈ calls, c.Survives := by
  have hwritten := written_fieldOf calls
  constructor
  · rintro ⟨fs, hfs, hread⟩
    obtain ⟨ks, hks, htokens⟩ := exists_tokens fs
    rw [htokens, List.forall₂_map_left_iff] at hread
    -- no token has fewer commas than the call it is read as
    have hcount : List.Forall₂ (fun w k => w.count ',' ≤ k.count ',') (written calls) ks := by
      refine (forall₂_comp (forall₂_comp hwritten hasked) hread.flip).imp ?_
      rintro w k ⟨q, ⟨c, ⟨-, hw, -⟩, hc, hq⟩, hk⟩
      calc w.count ',' = c.rendered.toList.count ',' := hw
        _ ≤ q.commas := rendered_commas henv hc hq
        _ ≤ (trim k).count ',' := parseToken_commas henv hk
        _ ≤ k.count ',' := (trim_sublist k).count_le _
    obtain ⟨rfl, hclosed⟩ := fields_intercalate_exact (by decide) (written_ne_nil hne) hfs hks hcount
    obtain rfl : ks = written calls := hks.eq_of_length hcount.length_eq.symm
    have hboth : List.Forall₂ (fun w c => closed ',' '"' false w = true ∧ FieldOf w c) (written calls) calls :=
      (List.forall₂_and_left _ _).mpr ⟨hclosed, hwritten⟩
    have hsurvive : List.Forall₂ (fun c _ => c.Survives ∧ True) calls qs := by
      refine List.Forall₂.mp ?_ (forall₂_comp hboth.flip hread) hasked
      rintro c q ⟨w, ⟨hw, htrim, -, hcommas⟩, hk⟩ ⟨hc, hq⟩
      rw [htrim, parseToken_trim] at hk
      exact ⟨(call_reads_iff henv hc hq).mp ⟨hcommas.mp hw, hk⟩, trivial⟩
    exact ((List.forall₂_and_left _ _).mp hsurvive).1
  · intro hsurvive
    have hreads : List.Forall₂ (fun w q => (closed ',' '"' false w = true ∧ trim w ≠ []) ∧ parseToken env (trim w) = .ok q)
        (written calls) qs := by
      refine (forall₂_comp hwritten ((List.forall₂_and_left _ _).mpr ⟨hsurvive, hasked⟩)).imp ?_
      rintro w q ⟨c, ⟨htrim, -, hcommas⟩, hc, hallowed, hq⟩
      obtain ⟨hclosed, hread⟩ := (call_reads_iff henv hallowed hq).mpr hc
      rw [htrim, parseToken_trim]
      exact ⟨⟨hcommas.mpr hclosed, rendered_not_blank hallowed hq⟩, hread⟩
    obtain ⟨hfields, hread⟩ := (List.forall₂_and_left _ _).mp hreads
    refine ⟨written calls, fields_intercalate (by decide) (written_ne_nil hne) fun w hw => (hfields w hw).1, ?_⟩
    rwa [tokensOf_eq fun w hw => (hfields w hw).2, List.forall₂_map_left_iff]

theorem exists_asked (h : ∀ c ∈ calls, (c.asked env).isSome) (hallowed : ∀ c ∈ calls, c.Allowed env) :
    List.Forall₂ (fun c q => c.Allowed env ∧ c.asked env = some q) calls (calls.filterMap (FilterCall.asked env)) := by
  induction calls with
  | nil => exact .nil
  | cons c calls ih =>
    obtain ⟨q, hq⟩ := Option.isSome_iff_exists.mp (h c List.mem_cons_self)
    rw [List.filterMap_cons_some hq]
    exact .cons ⟨hallowed c List.mem_cons_self, hq⟩
      (ih (fun d hd => h d (List.mem_cons_of_mem _ hd)) fun d hd => hallowed d (List.mem_cons_of_mem _ hd))

/-- A sequence without the two words asks for its qualifiers. -/
theorem askedFilter_of_no_word (h : ∀ c ∈ calls, (c.asked env).isSome) :
    askedFilter env calls = .qualifiers (calls.filterMap (FilterCall.asked env)) := by
  unfold askedFilter
  split
  · exact absurd (h _ List.mem_cons_self) (by simp [FilterCall.asked])
  · exact absurd (h _ List.mem_cons_self) (by simp [FilterCall.asked])
  · rfl

/-- A sequence that is allowed is one of the words, or has neither. -/
theorem AllowedTogether.cases (h : AllowedTogether env calls) :
    calls = [.matchAll] ∨ calls = [.matchNone] ∨ ∀ c ∈ calls, (c.asked env).isSome := by
  by_cases hword : FilterCall.matchAll ∈ calls ∨ FilterCall.matchNone ∈ calls
  · obtain ⟨c, rfl⟩ := List.length_eq_one_iff.mp (h.word_alone hword)
    rcases hword with hword | hword
    · exact .inl (by rw [List.mem_singleton.mp hword])
    · exact .inr (.inl (by rw [List.mem_singleton.mp hword]))
  · refine .inr (.inr fun c hc => ?_)
    cases c with
    | matchAll => exact absurd (.inl hc) hword
    | matchNone => exact absurd (.inr hc) hword
    | _ => rfl

/-- **A filter built means what was asked** exactly when every call's
arguments survive and it is not a bare pattern that reads as a word. -/
theorem buildOf_means_iff (henv : env.Documented) (h : AllowedTogether env calls) :
    parseFilter env (buildOf calls) = .ok (askedFilter env calls) ↔
      (∀ c ∈ calls, c.Survives) ∧ ¬ LoneWord calls := by
  rcases h.cases with rfl | rfl | hasked
  · exact iff_of_true rfl ⟨by simp [FilterCall.Survives], by simp [LoneWord]⟩
  · exact iff_of_true rfl ⟨by simp [FilterCall.Survives], by simp [LoneWord]⟩
  have hread := fields_read_iff henv h.some_call (exists_asked hasked h.each)
  rw [askedFilter_of_no_word hasked, parseFilter_qualifiers_iff]
  constructor
  · rintro ⟨⟨-, hall, hnone⟩, hfields, -⟩
    rw [buildOf_toList h.some_call] at hfields
    refine ⟨hread.mp hfields, ?_⟩
    rintro (rfl | rfl)
    · exact hall rfl
    · exact hnone rfl
  · rintro ⟨hsurvive, hlone⟩
    obtain ⟨hall, hnone⟩ := not_word hasked hsurvive hlone h.some_call
    obtain ⟨c, rest, rfl⟩ := List.exists_cons_of_ne_nil h.some_call
    obtain ⟨q, hq⟩ := Option.isSome_iff_exists.mp (hasked c List.mem_cons_self)
    refine ⟨⟨?_, hall, hnone⟩, ?_, ?_, h.one_kind, h.one_cursor⟩
    · exact buildOf_not_blank (h.each c List.mem_cons_self) hq
    · rw [buildOf_toList h.some_call]
      exact hread.mpr hsurvive
    · rw [List.filterMap_cons_some hq]
      exact List.cons_ne_nil _ _

/-! ### ASCII text -/

/-- ASCII text, no pattern refused, and decimal numbers read. -/
def asciiDecimal : ParseEnv :=
  { ParseEnv.ascii with parseF64 := fun s => (parseNat? (2 ^ 32 - 1) s.toList).map fun n : ℕ => .finite n }

theorem toLower_eq_iff {a c : Char} (hc : isWhiteSpace c = true ∨ c ∈ [',', '"', '\\']) : a.toLower = c ↔ a = c := by
  by_cases hupper : a.isUpper = true
  · have hlt : a.toNat < 128 := isAlphanum_lt (by
      show ((a.isUpper || a.isLower) || a.isDigit) = true
      rw [hupper, Bool.true_or, Bool.true_or])
    have hall : ∀ n < 128, (Char.ofNat n).isUpper = true →
        (isWhiteSpace (Char.ofNat n) = false ∧ Char.ofNat n ∉ [',', '"', '\\']) ∧
          isWhiteSpace (Char.ofNat n).toLower = false ∧ (Char.ofNat n).toLower ∉ [',', '"', '\\'] := by decide
    have hletter := hall a.toNat hlt
    rw [Char.ofNat_toNat] at hletter
    obtain ⟨⟨hw, hm⟩, hw', hm'⟩ := hletter hupper
    refine iff_of_false ?_ ?_
    · rintro rfl
      exact hc.elim (by simp [hw']) hm'
    · rintro rfl
      exact hc.elim (by simp [hw]) hm
  · have hself : a.toLower = a := by
      change ¬ decide ('A'.val ≤ a.val ∧ a.val ≤ 'Z'.val) = true at hupper
      exact dif_neg fun h => hupper (decide_eq_true h)
    rw [hself]

theorem asciiDecimal_documented : asciiDecimal.Documented where
  lower_count s c hc := by
    show (String.ofList (s.toList.map Char.toLower)).toList.count c = _
    rw [String.toList_ofList]
    induction s.toList with
    | nil => rfl
    | cons a l ih =>
      rw [List.map_cons, List.count_cons, List.count_cons, ih]
      simp only [beq_iff_eq, toLower_eq_iff hc]
  upper_level := by decide
  parse_decimal n hn := by
    unfold asciiDecimal
    dsimp only
    rw [parseNat?_toString (by omega), Option.map_some]

theorem buildOf_means_some : parseFilter asciiDecimal
    (buildOf [.levelAtLeast .error, .text .message "a, b", .patternRegex "/panic/" true, .cursor "run-1/before"]) =
      .ok (askedFilter asciiDecimal
        [.levelAtLeast .error, .text .message "a, b", .patternRegex "/panic/" true, .cursor "run-1/before"]) := by
  have hblank : NonBlank "a, b" := by decide
  have hname : isValidBookmarkToken "run-1/before" = true := by decide
  have htext : TextSurvives "a, b".toList := by decide
  have hregex : CommasQuoted (regexBody "/panic/") := by decide
  have hallowed : AllowedTogether asciiDecimal
      [.levelAtLeast .error, .text .message "a, b", .patternRegex "/panic/" true, .cursor "run-1/before"] :=
    { some_call := by decide
      word_alone := by decide
      each := by simp only [List.forall_mem_cons]; exact ⟨trivial, hblank, rfl, hname, by simp⟩
      one_kind := by decide
      one_cursor := by decide }
  refine (buildOf_means_iff asciiDecimal_documented hallowed).mpr ⟨?_, by decide⟩
  simp only [List.forall_mem_cons]
  exact ⟨trivial, htext, hregex, trivial, by simp⟩

theorem allowed_one {c : FilterCall} (hc : c.Allowed asciiDecimal) (hkind : ((([c] : List FilterCall).filterMap
    (FilterCall.asked asciiDecimal)).any Qualifier.isSpan && ([c].filterMap (FilterCall.asked asciiDecimal)).any
      Qualifier.isLog) = false) : AllowedTogether asciiDecimal [c] where
  some_call := List.cons_ne_nil _ _
  word_alone _ := rfl
  each := by simpa using hc
  one_kind := hkind
  one_cursor := by
    have h := List.countP_le_length (p := Qualifier.isCursor) (l := [c].filterMap (FilterCall.asked asciiDecimal))
    exact h.trans (List.length_filterMap_le _ _)

/-- A path becomes a regex, an equation a field, a comma cuts a regex in two,
quotes get backslashes, and a word is a filter of its own. -/
theorem buildOf_misread :
    (AllowedTogether asciiDecimal [.text .message "/api"] ∧
      parseFilter asciiDecimal (buildOf [.text .message "/api"]) =
        .ok (.qualifiers [.selectorPattern .message (.regex "api" false)]) ∧
      askedFilter asciiDecimal [.text .message "/api"] = .qualifiers [.selectorPattern .message (.substring "/api")]) ∧
    (AllowedTogether asciiDecimal [.pattern "a=b"] ∧
      parseFilter asciiDecimal (buildOf [.pattern "a=b"]) =
        .ok (.qualifiers [.selectorPattern (.additionalField "a") (.substring "b")]) ∧
      askedFilter asciiDecimal [.pattern "a=b"] = .qualifiers [.barePattern (.substring "a=b")]) ∧
    (AllowedTogether asciiDecimal [.textRegex .message "a,b" false] ∧
      parseFilter asciiDecimal (buildOf [.textRegex .message "a,b" false]) =
        .ok (.qualifiers [.selectorPattern .message (.regex "a" false), .barePattern (.substring "b/")]) ∧
      askedFilter asciiDecimal [.textRegex .message "a,b" false] =
        .qualifiers [.selectorPattern .message (.regex "a,b" false)]) ∧
    (AllowedTogether asciiDecimal [.text .message "say \"hi\""] ∧
      parseFilter asciiDecimal (buildOf [.text .message "say \"hi\""]) =
        .ok (.qualifiers [.selectorPattern .message (.substring "say \\\"hi\\\"")]) ∧
      askedFilter asciiDecimal [.text .message "say \"hi\""] =
        .qualifiers [.selectorPattern .message (.substring "say \"hi\"")]) ∧
    (AllowedTogether asciiDecimal [.pattern "ALL"] ∧
      parseFilter asciiDecimal (buildOf [.pattern "ALL"]) = .ok .all ∧
      askedFilter asciiDecimal [.pattern "ALL"] = .qualifiers [.barePattern (.substring "all")]) := by
  have hblank : NonBlank "/api" ∧ NonBlank "a=b" ∧ NonBlank "say \"hi\"" ∧ NonBlank "ALL" := by decide
  obtain ⟨h1, h2, h3, h4⟩ := hblank
  exact ⟨⟨allowed_one h1 rfl, rfl, rfl⟩, ⟨allowed_one h2 rfl, rfl, rfl⟩, ⟨allowed_one rfl rfl, rfl, rfl⟩,
    ⟨allowed_one h3 rfl, rfl, rfl⟩, ⟨allowed_one h4 rfl, rfl, rfl⟩⟩

end Sdk
end Logmon
