/-
# Fields with quoted stretches

A text of fields with a separator between each two, where a separator inside
quotes belongs to its field. Fields without a separator of their own outside
quotes, each with its quotes closed, are read back as they were written
(`fields_intercalate`). The converse holds by counting: a text in which as
many fields are found as were written, none with fewer separators in it, is
one whose fields were all such (`fields_intercalate_exact`).

Key definitions: `closed`, `fields`, `endsInQuote`.
Key theorems: `endsInQuote_append`, `closed_of_fields`, `fields_intercalate`,
`fields_intercalate_exact`.
-/
import Mathlib.Algebra.Order.BigOperators.Group.List
import Mathlib.Algebra.Order.Group.Nat
import Mathlib.Data.List.Forall2
import Mathlib.Tactic.Linarith

namespace Logmon
namespace Lib

variable {α : Type} [DecidableEq α]

section Fields

variable (sep quote : α)

/-- No separator outside quotes, and the last quote closed; `inQuote` says how
the text begins. -/
def closed : Bool → List α → Bool
  | inQuote, [] => !inQuote
  | inQuote, c :: l =>
    if c = quote then closed (!inQuote) l
    else if c = sep ∧ inQuote = false then false
    else closed inQuote l

/-- The fields of a text, if its last quote is closed. -/
def fields : Bool → List α → Option (List (List α))
  | inQuote, [] => if inQuote then none else some [[]]
  | inQuote, c :: l =>
    if c = quote then (fields (!inQuote) l).map fun fs => fs.modifyHead (c :: ·)
    else if c = sep ∧ inQuote = false then (fields inQuote l).map ([] :: ·)
    else (fields inQuote l).map fun fs => fs.modifyHead (c :: ·)

end Fields

variable {sep quote : α} {q : Bool} {l rest f : List α} {fs : List (List α)}

theorem fields_ne_nil : ∀ {l : List α} {q : Bool} {fs : List (List α)}, fields sep quote q l = some fs → fs ≠ []
  | [], q, fs, h => by
    unfold fields at h
    split_ifs at h
    obtain rfl := Option.some.inj h
    exact List.cons_ne_nil _ _
  | c :: l, q, fs, h => by
    unfold fields at h
    split_ifs at h
    · obtain ⟨gs, hgs, rfl⟩ := Option.map_eq_some_iff.mp h
      obtain ⟨g, gs, rfl⟩ := List.exists_cons_of_ne_nil (fields_ne_nil hgs)
      exact List.cons_ne_nil _ _
    · obtain ⟨gs, -, rfl⟩ := Option.map_eq_some_iff.mp h
      exact List.cons_ne_nil _ _
    · obtain ⟨gs, hgs, rfl⟩ := Option.map_eq_some_iff.mp h
      obtain ⟨g, gs, rfl⟩ := List.exists_cons_of_ne_nil (fields_ne_nil hgs)
      exact List.cons_ne_nil _ _

/-! ### Texts put together -/

/-- What follows a closed text begins outside quotes. -/
theorem closed_append : ∀ {l : List α} {q : Bool}, closed sep quote q l = true →
    closed sep quote q (l ++ rest) = closed sep quote false rest
  | [], q, h => by
    obtain rfl : q = false := by simpa [closed] using h
    rfl
  | c :: l, q, h => by
    unfold closed at h
    rw [List.cons_append]
    conv_lhs => unfold closed
    split_ifs at h ⊢
    · exact closed_append h
    · exact closed_append h

/-- Without separator or quote, nothing begins or ends. -/
theorem closed_append_plain_append {w : List α} (hw : ∀ c ∈ w, c ≠ sep ∧ c ≠ quote) : ∀ {l : List α} {q : Bool},
    closed sep quote q (l ++ (w ++ rest)) = closed sep quote q (l ++ rest)
  | [], q => by
    induction w with
    | nil => rfl
    | cons c w ih =>
      obtain ⟨hsep, hquote⟩ := hw c List.mem_cons_self
      rw [List.nil_append, List.cons_append, closed, if_neg hquote, if_neg (fun hc => hsep hc.1)]
      exact ih fun d hd => hw d (List.mem_cons_of_mem _ hd)
  | c :: l, q => by
    rw [List.cons_append, List.cons_append, closed, closed]
    split_ifs
    · exact closed_append_plain_append hw
    · rfl
    · exact closed_append_plain_append hw

theorem closed_plain_append {w : List α} (hw : ∀ c ∈ w, c ≠ sep ∧ c ≠ quote) :
    closed sep quote q (w ++ rest) = closed sep quote q rest :=
  @closed_append_plain_append _ _ _ _ rest w hw [] q

theorem closed_append_plain {w : List α} (hw : ∀ c ∈ w, c ≠ sep ∧ c ≠ quote) :
    closed sep quote q (l ++ w) = closed sep quote q l := by
  have h := @closed_append_plain_append _ _ sep quote [] w hw l q
  rwa [List.append_nil, List.append_nil] at h

theorem closed_inQuote_append : ∀ {l : List α}, quote ∉ l →
    closed sep quote true (l ++ quote :: rest) = closed sep quote false rest
  | [], _ => by simp [closed]
  | c :: l, h => by
    obtain ⟨hc, hl⟩ := not_or.mp (mt List.mem_cons.mpr h)
    rw [List.cons_append, closed, if_neg (Ne.symm hc), if_neg (by simp)]
    exact closed_inQuote_append hl

/-- A separator before the first quote stands outside quotes. -/
theorem not_closed_of_mem : ∀ {l : List α}, quote ∉ l → sep ∈ l → closed sep quote false (l ++ rest) = false
  | c :: l, hquote, hsep => by
    obtain ⟨hc, hl⟩ := not_or.mp (mt List.mem_cons.mpr hquote)
    rw [List.cons_append, closed, if_neg (Ne.symm hc)]
    split_ifs with hcs
    · rfl
    · have hne : sep ≠ c := fun he => hcs ⟨he.symm, rfl⟩
      exact not_closed_of_mem hl ((List.mem_cons.mp hsep).resolve_left hne)

/-- What stands before a quoted stretch with a separator in it is closed where
the whole is. -/
theorem closed_of_append_quoted {v : List α} (hsep : sep ∈ v) (hquote : quote ∉ v) : ∀ {l : List α} {q : Bool},
    closed sep quote q (l ++ quote :: (v ++ [quote])) = true → closed sep quote q l = true
  | [], q, h => by
    cases q with
    | false => rfl
    | true =>
      -- the stretch's first quote would close, and leave the separator outside
      have hout : closed sep quote false (v ++ [quote]) = true := by simpa [closed] using h
      rw [not_closed_of_mem hquote hsep] at hout
      cases hout
  | c :: l, q, h => by
    rw [List.cons_append] at h
    unfold closed at h ⊢
    split_ifs at h ⊢
    · exact closed_of_append_quoted hsep hquote h
    · exact closed_of_append_quoted hsep hquote h

/-! ### Reading -/

theorem fields_of_closed : ∀ {l : List α} {q : Bool}, closed sep quote q l = true → fields sep quote q l = some [l]
  | [], q, h => by
    obtain rfl : q = false := by simpa [closed] using h
    rfl
  | c :: l, q, h => by
    unfold closed at h
    unfold fields
    split_ifs at h ⊢
    · rw [fields_of_closed h]
      rfl
    · rw [fields_of_closed h]
      rfl

/-- A closed field ends at the separator that follows it. -/
theorem fields_append (hne : sep ≠ quote) : ∀ {l : List α} {q : Bool}, closed sep quote q l = true →
    fields sep quote q (l ++ sep :: rest) = (fields sep quote false rest).map (l :: ·)
  | [], q, h => by
    obtain rfl : q = false := by simpa [closed] using h
    rw [List.nil_append, fields, if_neg hne, if_pos ⟨rfl, rfl⟩]
  | c :: l, q, h => by
    unfold closed at h
    rw [List.cons_append, fields]
    split_ifs at h ⊢
    · rw [fields_append hne h, Option.map_map]
      rfl
    · rw [fields_append hne h, Option.map_map]
      rfl

omit [DecidableEq α] in
theorem intercalate_cons (l m : List α) (ls : List (List α)) :
    [sep].intercalate (l :: m :: ls) = l ++ sep :: [sep].intercalate (m :: ls) := by
  rw [List.intercalate_cons_cons, List.append_assoc, List.singleton_append]

/-- **Closed fields are read back** as they were written. -/
theorem fields_intercalate (hne : sep ≠ quote) : ∀ {ls : List (List α)}, ls ≠ [] →
    (∀ l ∈ ls, closed sep quote false l = true) → fields sep quote false ([sep].intercalate ls) = some ls
  | [], h, _ => absurd rfl h
  | [l], _, h => by
    rw [List.intercalate_singleton, fields_of_closed (h l List.mem_cons_self)]
  | l :: m :: ls, _, h => by
    rw [intercalate_cons, fields_append hne (h l List.mem_cons_self),
      fields_intercalate hne (List.cons_ne_nil m ls) fun x hx => h x (List.mem_cons_of_mem _ hx)]
    rfl

/-- What stands before the text stands before its first field. -/
theorem fields_plain_append : ∀ {l : List α}, (∀ c ∈ l, c ≠ sep ∧ c ≠ quote) →
    fields sep quote q (l ++ rest) = (fields sep quote q rest).map fun fs => fs.modifyHead (l ++ ·)
  | [], _ => by
    have hid : (fun fs : List (List α) => fs.modifyHead ([] ++ ·)) = id := by
      funext fs
      cases fs <;> rfl
    rw [List.nil_append, hid, Option.map_id_apply]
  | c :: l, h => by
    obtain ⟨hsep, hquote⟩ := h c List.mem_cons_self
    rw [List.cons_append, fields, if_neg hquote, if_neg (fun hc => hsep hc.1),
      fields_plain_append fun d hd => h d (List.mem_cons_of_mem _ hd), Option.map_map]
    congr 1
    funext fs
    cases fs <;> rfl

/-- `w` after the last of a list of texts. -/
def appendLast (w : List α) : List (List α) → List (List α)
  | [] => []
  | [f] => [f ++ w]
  | f :: g :: fs => f :: appendLast w (g :: fs)

/-- What stands after the text stands after its last field. -/
theorem fields_append_plain {w : List α} (hw : ∀ c ∈ w, c ≠ sep ∧ c ≠ quote) : ∀ {l : List α} {q : Bool},
    fields sep quote q (l ++ w) = (fields sep quote q l).map (appendLast w)
  | [], q => by
    have hempty : fields sep quote q w = (fields sep quote q []).map fun fs => fs.modifyHead (w ++ ·) := by
      rw [← fields_plain_append hw, List.append_nil]
    rw [List.nil_append, hempty, fields]
    split_ifs
    · rfl
    · show some [w ++ []] = some [[] ++ w]
      rw [List.append_nil, List.nil_append]
  | c :: l, q => by
    have hcons : ∀ {fs : List (List α)}, fs ≠ [] →
        (appendLast w fs).modifyHead (c :: ·) = appendLast w (fs.modifyHead (c :: ·)) ∧
          [] :: appendLast w fs = appendLast w ([] :: fs)
      | [], h => absurd rfl h
      | [_], _ => ⟨rfl, rfl⟩
      | _ :: _ :: _, _ => ⟨rfl, rfl⟩
    rw [List.cons_append, fields, fields]
    split_ifs
    · rw [fields_append_plain hw, Option.map_map, Option.map_map]
      exact Option.map_congr fun fs hfs => (hcons (fields_ne_nil hfs)).1
    · rw [fields_append_plain hw, Option.map_map, Option.map_map]
      exact Option.map_congr fun fs hfs => (hcons (fields_ne_nil hfs)).2
    · rw [fields_append_plain hw, Option.map_map, Option.map_map]
      exact Option.map_congr fun fs hfs => (hcons (fields_ne_nil hfs)).1

/-! ### Where a text ends -/

/-- Whether a text ends inside quotes, if it has no separator outside them. -/
def endsInQuote (sep quote : α) : Bool → List α → Option Bool
  | q, [] => some q
  | q, c :: l =>
    if c = quote then endsInQuote sep quote (!q) l
    else if c = sep ∧ q = false then none
    else endsInQuote sep quote q l

theorem closed_iff_endsInQuote : ∀ {l : List α} {q : Bool},
    closed sep quote q l = true ↔ endsInQuote sep quote q l = some false
  | [], q => by cases q <;> simp [closed, endsInQuote]
  | c :: l, q => by
    unfold closed endsInQuote
    split_ifs
    · exact closed_iff_endsInQuote
    · simp
    · exact closed_iff_endsInQuote

/-- A text in two parts: the second begins where the first ends. -/
theorem endsInQuote_append : ∀ {l : List α} {q : Bool},
    endsInQuote sep quote q (l ++ rest) = (endsInQuote sep quote q l).bind fun q' => endsInQuote sep quote q' rest
  | [], q => rfl
  | c :: l, q => by
    rw [List.cons_append, endsInQuote, endsInQuote]
    split_ifs
    · exact endsInQuote_append
    · rfl
    · exact endsInQuote_append

theorem endsInQuote_plain : ∀ {l : List α} {q : Bool}, (∀ c ∈ l, c ≠ sep ∧ c ≠ quote) →
    endsInQuote sep quote q l = some q
  | [], _, _ => rfl
  | c :: l, q, h => by
    obtain ⟨hsep, hquote⟩ := h c List.mem_cons_self
    rw [endsInQuote, if_neg hquote, if_neg fun hc => hsep hc.1]
    exact endsInQuote_plain fun d hd => h d (List.mem_cons_of_mem _ hd)

/-- A text that leaves a quote open has no fields. -/
theorem fields_eq_none_of_open : ∀ {l : List α} {q : Bool}, endsInQuote sep quote q l = some true →
    fields sep quote q l = none
  | [], q, h => by
    obtain rfl := Option.some.inj h
    rfl
  | c :: l, q, h => by
    unfold endsInQuote at h
    unfold fields
    split_ifs at h ⊢
    · rw [fields_eq_none_of_open h]
      rfl
    · rw [fields_eq_none_of_open h]
      rfl

/-- Every field is closed, the first one as the text begins. -/
theorem closed_of_fields : ∀ {l f : List α} {q : Bool} {fs : List (List α)}, fields sep quote q l = some (f :: fs) →
    closed sep quote q f = true ∧ ∀ g ∈ fs, closed sep quote false g = true
  | [], f, q, fs, h => by
    unfold fields at h
    split_ifs at h with hq
    obtain ⟨rfl, rfl⟩ := List.cons.inj (Option.some.inj h)
    exact ⟨by simpa [closed] using hq, fun g hg => absurd hg List.not_mem_nil⟩
  | c :: l, f, q, fs, h => by
    unfold fields at h
    split_ifs at h with hc hsep
    · obtain ⟨gs, hgs, heq⟩ := Option.map_eq_some_iff.mp h
      obtain ⟨g, gs, rfl⟩ := List.exists_cons_of_ne_nil (fields_ne_nil hgs)
      obtain ⟨rfl, rfl⟩ := List.cons.inj heq
      obtain ⟨hg, hrest⟩ := closed_of_fields hgs
      exact ⟨by rwa [closed, if_pos hc], hrest⟩
    · obtain ⟨gs, hgs, heq⟩ := Option.map_eq_some_iff.mp h
      obtain ⟨rfl, rfl⟩ := List.cons.inj heq
      obtain ⟨g, gs, rfl⟩ := List.exists_cons_of_ne_nil (fields_ne_nil hgs)
      obtain ⟨hg, hrest⟩ := closed_of_fields hgs
      obtain rfl := hsep.2
      exact ⟨rfl, List.forall_mem_cons.mpr ⟨hg, hrest⟩⟩
    · obtain ⟨gs, hgs, heq⟩ := Option.map_eq_some_iff.mp h
      obtain ⟨g, gs, rfl⟩ := List.exists_cons_of_ne_nil (fields_ne_nil hgs)
      obtain ⟨rfl, rfl⟩ := List.cons.inj heq
      obtain ⟨hg, hrest⟩ := closed_of_fields hgs
      exact ⟨by rwa [closed, if_neg hc, if_neg hsep], hrest⟩

/-! ### Counting the separators -/

/-- Every separator stands between two fields or in one. -/
theorem count_fields (hne : sep ≠ quote) : ∀ {l : List α} {q : Bool} {fs : List (List α)},
    fields sep quote q l = some fs → l.count sep + 1 = (fs.map (List.count sep)).sum + fs.length
  | [], q, fs, h => by
    unfold fields at h
    split_ifs at h
    obtain rfl := Option.some.inj h
    rfl
  | c :: l, q, fs, h => by
    unfold fields at h
    split_ifs at h with hc hsep
    · obtain ⟨gs, hgs, rfl⟩ := Option.map_eq_some_iff.mp h
      have ih := count_fields hne hgs
      obtain ⟨g, gs, rfl⟩ := List.exists_cons_of_ne_nil (fields_ne_nil hgs)
      subst hc
      simp only [List.modifyHead_cons, List.map_cons, List.sum_cons, List.length_cons,
        List.count_cons_of_ne hne.symm] at ih ⊢
      exact ih
    · obtain ⟨gs, hgs, rfl⟩ := Option.map_eq_some_iff.mp h
      have ih := count_fields hne hgs
      obtain ⟨rfl, -⟩ := hsep
      simp only [List.map_cons, List.sum_cons, List.length_cons, List.count_cons_self, List.count_nil]
      omega
    · obtain ⟨gs, hgs, rfl⟩ := Option.map_eq_some_iff.mp h
      have ih := count_fields hne hgs
      obtain ⟨g, gs, rfl⟩ := List.exists_cons_of_ne_nil (fields_ne_nil hgs)
      simp only [List.modifyHead_cons, List.map_cons, List.sum_cons, List.length_cons, List.count_cons] at ih ⊢
      omega

theorem count_intercalate (sep : α) : ∀ {ls : List (List α)}, ls ≠ [] →
    ([sep].intercalate ls).count sep + 1 = (ls.map (List.count sep)).sum + ls.length
  | [], h => absurd rfl h
  | [l], _ => by simp
  | l :: m :: ls, _ => by
    have ih := count_intercalate sep (List.cons_ne_nil m ls)
    rw [intercalate_cons, List.count_append, List.count_cons_self]
    simp only [List.map_cons, List.sum_cons, List.length_cons] at ih ⊢
    omega

/-- A first field with as many separators as were written there is what was
written there. -/
theorem fields_append_cancel (hne : sep ≠ quote) : ∀ {l f : List α} {fs : List (List α)} {q : Bool},
    fields sep quote q (l ++ sep :: rest) = some (f :: fs) → f.count sep = l.count sep →
      f = l ∧ closed sep quote q l = true ∧ fields sep quote false rest = some fs
  | [], f, fs, q, h, hcount => by
    cases q with
    | false =>
      rw [List.nil_append, fields, if_neg hne, if_pos ⟨rfl, rfl⟩] at h
      obtain ⟨gs, hgs, heq⟩ := Option.map_eq_some_iff.mp h
      obtain ⟨rfl, rfl⟩ := List.cons.inj heq
      exact ⟨rfl, rfl, hgs⟩
    | true =>
      -- the separator would be inside the first field
      rw [List.nil_append, fields, if_neg hne, if_neg (by simp)] at h
      obtain ⟨gs, hgs, heq⟩ := Option.map_eq_some_iff.mp h
      obtain ⟨g, gs, rfl⟩ := List.exists_cons_of_ne_nil (fields_ne_nil hgs)
      obtain ⟨rfl, rfl⟩ := List.cons.inj heq
      simp at hcount
  | c :: l, f, fs, q, h, hcount => by
    rw [List.cons_append, fields] at h
    unfold closed
    split_ifs at h ⊢ with hc hsep
    · obtain ⟨gs, hgs, heq⟩ := Option.map_eq_some_iff.mp h
      obtain ⟨g, gs, rfl⟩ := List.exists_cons_of_ne_nil (fields_ne_nil hgs)
      obtain ⟨rfl, rfl⟩ := List.cons.inj heq
      obtain ⟨rfl, hl, hrest⟩ := fields_append_cancel hne hgs (by simpa [List.count_cons] using hcount)
      exact ⟨rfl, hl, hrest⟩
    · obtain ⟨gs, -, heq⟩ := Option.map_eq_some_iff.mp h
      obtain ⟨rfl, rfl⟩ := List.cons.inj heq
      simp [hsep.1] at hcount
    · obtain ⟨gs, hgs, heq⟩ := Option.map_eq_some_iff.mp h
      obtain ⟨g, gs, rfl⟩ := List.exists_cons_of_ne_nil (fields_ne_nil hgs)
      obtain ⟨rfl, rfl⟩ := List.cons.inj heq
      obtain ⟨rfl, hl, hrest⟩ := fields_append_cancel hne hgs (by simpa [List.count_cons] using hcount)
      exact ⟨rfl, hl, hrest⟩

theorem fields_singleton : ∀ {l f : List α} {q : Bool}, fields sep quote q l = some [f] →
    f = l ∧ closed sep quote q l = true
  | [], f, q, h => by
    unfold fields at h
    split_ifs at h with hq
    exact ⟨(List.cons.inj (Option.some.inj h)).1.symm, by simpa [closed] using hq⟩
  | c :: l, f, q, h => by
    unfold fields at h
    unfold closed
    split_ifs at h ⊢
    · obtain ⟨gs, hgs, heq⟩ := Option.map_eq_some_iff.mp h
      obtain ⟨g, gs, rfl⟩ := List.exists_cons_of_ne_nil (fields_ne_nil hgs)
      obtain ⟨rfl, rfl⟩ := List.cons.inj heq
      obtain ⟨rfl, hl⟩ := fields_singleton hgs
      exact ⟨rfl, hl⟩
    · obtain ⟨gs, hgs, heq⟩ := Option.map_eq_some_iff.mp h
      exact absurd (List.cons.inj heq).2 (fields_ne_nil hgs)
    · obtain ⟨gs, hgs, heq⟩ := Option.map_eq_some_iff.mp h
      obtain ⟨g, gs, rfl⟩ := List.exists_cons_of_ne_nil (fields_ne_nil hgs)
      obtain ⟨rfl, rfl⟩ := List.cons.inj heq
      obtain ⟨rfl, hl⟩ := fields_singleton hgs
      exact ⟨rfl, hl⟩

/-- Fields each with the separators of what was written are what was written. -/
theorem fields_intercalate_cancel (hne : sep ≠ quote) : ∀ {ls fs : List (List α)}, ls ≠ [] →
    fields sep quote false ([sep].intercalate ls) = some fs → List.Forall₂ (fun l f => l.count sep = f.count sep) ls fs →
      fs = ls ∧ ∀ l ∈ ls, closed sep quote false l = true
  | [], _, h, _, _ => absurd rfl h
  | [l], fs, _, h, hcount => by
    obtain ⟨f, gs, -, hgs, rfl⟩ := List.forall₂_cons_left_iff.mp hcount
    obtain rfl := List.forall₂_nil_left_iff.mp hgs
    rw [List.intercalate_singleton] at h
    obtain ⟨rfl, hl⟩ := fields_singleton h
    exact ⟨rfl, by simpa using hl⟩
  | l :: m :: ls, fs, _, h, hcount => by
    obtain ⟨f, gs, hf, hgs, rfl⟩ := List.forall₂_cons_left_iff.mp hcount
    rw [intercalate_cons] at h
    obtain ⟨rfl, hl, hrest⟩ := fields_append_cancel hne h hf.symm
    obtain ⟨rfl, hls⟩ := fields_intercalate_cancel hne (List.cons_ne_nil m ls) hrest hgs
    exact ⟨rfl, List.forall_mem_cons.mpr ⟨hl, hls⟩⟩

omit [DecidableEq α] in
theorem sum_le_of_forall₂ {f g : List α → ℕ} {ls ks : List (List α)} (h : List.Forall₂ (fun l k => f l ≤ g k) ls ks) :
    (ls.map f).sum ≤ (ks.map g).sum := by
  induction h with
  | nil => exact Nat.le_refl _
  | cons hab _ ih =>
    rw [List.map_cons, List.sum_cons, List.map_cons, List.sum_cons]
    exact Nat.add_le_add hab ih

omit [DecidableEq α] in
/-- Numbers below others, with no smaller sum, are the same numbers. -/
theorem forall₂_eq_of_sum_le {f g : List α → ℕ} {ls ks : List (List α)}
    (h : List.Forall₂ (fun l k => f l ≤ g k) ls ks) (hsum : (ks.map g).sum ≤ (ls.map f).sum) :
    List.Forall₂ (fun l k => f l = g k) ls ks := by
  induction h with
  | nil => exact .nil
  | cons hab hrest ih =>
    rw [List.map_cons, List.sum_cons, List.map_cons, List.sum_cons] at hsum
    have := sum_le_of_forall₂ hrest
    exact .cons (by omega) (ih (by omega))

/-- **As many fields as were written**, none with fewer separators: then what
was written were closed fields, and they are what is read. -/
theorem fields_intercalate_exact (hne : sep ≠ quote) {ls fs ks : List (List α)} (hls : ls ≠ [])
    (h : fields sep quote false ([sep].intercalate ls) = some fs) (hks : ks.Sublist fs)
    (hcount : List.Forall₂ (fun l k => l.count sep ≤ k.count sep) ls ks) :
    fs = ls ∧ ∀ l ∈ ls, closed sep quote false l = true := by
  have hread := count_fields hne h
  have hwritten := count_intercalate sep hls
  have hsum := sum_le_of_forall₂ hcount
  have hkept : (ks.map (List.count sep)).sum ≤ (fs.map (List.count sep)).sum := (hks.map _).sum_le_sum (by simp)
  have hlength := hcount.length_eq
  have hall : ks = fs := hks.eq_of_length_le (by omega)
  subst hall
  exact fields_intercalate_cancel hne hls h (forall₂_eq_of_sum_le hcount (by omega))

end Lib
end Logmon
