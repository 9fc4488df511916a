/-
# Interning, with the ids of the code

`collector/intern.rs` once more, its ids the `u32` they are: the next id is
computed from the length of the table by a truncation and an addition, without
overflow checks, while the cap counts in a wider type. Over any run of calls
the table is a bounded bijection exactly when it never holds more than
`2^32 - 2` values (`bounded_bijection_iff`); under such a cap it is the table
`Interner` (`Agrees.intern`).

Key definitions: `idAt`, `InternTable`, `InternTable.intern`,
`InternTable.run`, `BoundedBijection`.
Key theorems: `InternTable.intern_cases`, `run_spec`, `length_run`,
`bounded_bijection_iff`, `Agrees.intern`.
-/
import Logmon.Collector.Exact
import Mathlib.Data.Finset.Card

namespace Logmon

open Lib

/-! ### The table -/

/-- `FIRST_REAL_ID + self.to_value.len() as u32`, at that length. -/
def idAt (k : ℕ) : ℕ := (firstRealId + k % 2 ^ 32) % 2 ^ 32

/-- `Interner`: the map and the vector mirror each other. -/
structure InternTable where
  toId : FMap String ℕ
  toValue : List String
  cap : ℕ
  capped : Bool
  mirror : ∀ s id, toId.get? s = some id ↔ ∃ k, toValue[k]? = some s ∧ id = idAt k
  nodup : toValue.Nodup
  within : toValue.length ≤ cap

namespace InternTable

def new (cap : ℕ) : InternTable where
  toId := ∅
  toValue := []
  cap := cap
  capped := false
  mirror s id := by simp
  nodup := List.nodup_nil
  within := Nat.zero_le _

theorem mem_toValue_iff (t : InternTable) (s : String) : s ∈ t.toValue ↔ ∃ id, t.toId.get? s = some id := by
  simp only [t.mirror, List.mem_iff_getElem?]
  exact ⟨fun ⟨k, hk⟩ => ⟨idAt k, k, hk, rfl⟩, fun ⟨_, k, hk, _⟩ => ⟨k, hk⟩⟩

theorem notMem_toValue {t : InternTable} {s : String} (h : t.toId.get? s = none) : s ∉ t.toValue := by
  rw [mem_toValue_iff, h]
  exact fun ⟨_, h⟩ => nomatch h

/-- The mirror holds of a table with one value more. -/
theorem mirror_push {t : InternTable} {value : String} (h : t.toId.get? value = none) (s : String) (id : ℕ) :
    (t.toId.insert value (idAt t.toValue.length)).get? s = some id ↔
      ∃ k, (t.toValue ++ [value])[k]? = some s ∧ id = idAt k := by
  have hnot := notMem_toValue h
  rw [FMap.get?_insert]
  by_cases hs : s = value
  · subst hs
    rw [if_pos rfl, Option.some.injEq]
    constructor
    · rintro rfl
      exact ⟨t.toValue.length, by simp, rfl⟩
    · rintro ⟨k, hk, rfl⟩
      rcases Nat.lt_or_ge k t.toValue.length with hlt | hge
      · rw [List.getElem?_append_left hlt] at hk
        exact absurd (List.mem_of_getElem? hk) hnot
      · rw [List.getElem?_append_right hge, List.getElem?_singleton] at hk
        have : k = t.toValue.length := by
          by_contra hne
          rw [if_neg (by omega)] at hk
          cases hk
        rw [this]
  · rw [if_neg hs, t.mirror]
    refine exists_congr fun k => and_congr_left fun _ => ?_
    rw [List.getElem?_append]
    split
    · rfl
    · rename_i hge
      rw [List.getElem?_eq_none (by omega), List.getElem?_singleton]
      split
      · simp [Ne.symm hs]
      · rfl

/-- Intern a value, or fold it into the overflow id once the cap is reached. -/
def intern (t : InternTable) (value : String) : ℕ × InternTable :=
  match h : t.toId.get? value with
  | some id => (id, t)
  | none =>
    if hc : t.toValue.length ≥ t.cap then (overflowId, { t with capped := true })
    else
      (idAt t.toValue.length,
        { t with
          toId := t.toId.insert value (idAt t.toValue.length)
          toValue := t.toValue ++ [value]
          mirror := mirror_push h
          nodup := List.nodup_append.mpr ⟨t.nodup, List.nodup_singleton _, fun a ha b hb =>
            fun hab => notMem_toValue h (List.mem_singleton.mp hb ▸ hab ▸ ha)⟩
          within := by
            rw [List.length_append, List.length_singleton]
            omega })

/-- `resolve`: the label of an id. -/
def resolve (t : InternTable) (id : ℕ) : String :=
  if id = overflowId then overflowLabel
  else if id = absentId then absentLabel
  else (t.toValue[id - firstRealId]?).getD overflowLabel

/-- The call folds the value into the overflow id. -/
def Folds (t : InternTable) (value : String) : Prop := t.toId.get? value = none ∧ t.toValue.length ≥ t.cap

instance (t : InternTable) (value : String) : Decidable (t.Folds value) := inferInstanceAs (Decidable (_ ∧ _))

theorem intern_of_some {t : InternTable} {value : String} {id : ℕ} (h : t.toId.get? value = some id) :
    t.intern value = (id, t) := by
  unfold intern
  split
  · rename_i id' h'
    rw [Option.some.inj (h'.symm.trans h)]
  · rename_i h'
    cases h'.symm.trans h

theorem intern_of_full {t : InternTable} {value : String} (h : t.toId.get? value = none)
    (hc : t.toValue.length ≥ t.cap) : t.intern value = (overflowId, { t with capped := true }) := by
  unfold intern
  split
  · rename_i h'
    cases h'.symm.trans h
  · rw [dif_pos hc]

theorem intern_of_room {t : InternTable} {value : String} (h : t.toId.get? value = none)
    (hc : ¬ t.toValue.length ≥ t.cap) :
    (t.intern value).1 = idAt t.toValue.length ∧
      (t.intern value).2.toId = t.toId.insert value (idAt t.toValue.length) ∧
      (t.intern value).2.toValue = t.toValue ++ [value] ∧ (t.intern value).2.capped = t.capped := by
  unfold intern
  split
  · rename_i h'
    cases h'.symm.trans h
  · rw [dif_neg hc]
    exact ⟨rfl, rfl, rfl, rfl⟩

/-- What a call can do: find the value, fold it, or give it the next id. -/
theorem intern_cases (t : InternTable) (value : String) :
    (∃ k, t.toValue[k]? = some value ∧ ¬ t.Folds value ∧ t.intern value = (idAt k, t)) ∨
    (t.Folds value ∧ value ∉ t.toValue ∧ t.toValue.length = t.cap ∧
      t.intern value = (overflowId, { t with capped := true })) ∨
    (¬ t.Folds value ∧ (t.intern value).1 = idAt t.toValue.length ∧
      (t.intern value).2.toValue = t.toValue ++ [value]) := by
  cases hv : t.toId.get? value with
  | some id =>
    obtain ⟨k, hk, rfl⟩ := (t.mirror value id).mp hv
    have hf : ¬ t.Folds value := fun hf => by
      rw [hf.1] at hv
      cases hv
    exact .inl ⟨k, hk, hf, intern_of_some hv⟩
  | none =>
    by_cases hc : t.toValue.length ≥ t.cap
    · exact .inr (.inl ⟨⟨hv, hc⟩, notMem_toValue hv, le_antisymm t.within hc, intern_of_full hv hc⟩)
    · obtain ⟨hid, -, hvals, -⟩ := intern_of_room hv hc
      exact .inr (.inr ⟨fun hf => hc hf.2, hid, hvals⟩)

@[simp] theorem cap_intern (t : InternTable) (value : String) : (t.intern value).2.cap = t.cap := by
  unfold intern
  split
  · rfl
  · split <;> rfl

/-- One call's answer. -/
structure Given where
  value : String
  id : ℕ
  folded : Bool

/-- A sequence of calls, and what each was given. -/
def run (t : InternTable) : List String → List Given × InternTable
  | [] => ([], t)
  | value :: calls =>
    let later := run (t.intern value).2 calls
    (⟨value, (t.intern value).1, t.Folds value⟩ :: later.1, later.2)

end InternTable

open InternTable

/-! ### A whole run -/

/-- What a table tells of an answer given earlier. -/
def Explains (t : InternTable) (g : Given) : Prop :=
  (g.folded = false ∧ ∃ k, t.toValue[k]? = some g.value ∧ g.id = idAt k) ∨
    (g.folded = true ∧ g.id = overflowId ∧ g.value ∉ t.toValue ∧ t.toValue.length = t.cap)

/-- **One call**: the table grows behind what it holds, it explains the answer,
and a value it gains is the one just given. -/
theorem intern_spec (t : InternTable) (value : String) :
    t.toValue <+: (t.intern value).2.toValue ∧
      Explains (t.intern value).2 ⟨value, (t.intern value).1, t.Folds value⟩ ∧
      ∀ k s, (t.intern value).2.toValue[k]? = some s → t.toValue[k]? = some s ∨
        s = value ∧ (t.intern value).1 = idAt k ∧ ¬ t.Folds value := by
  obtain ⟨k, hk, hf, he⟩ | ⟨hf, hnot, hfull, he⟩ | ⟨hf, hid, hvals⟩ := t.intern_cases value
  · rw [he]
    exact ⟨List.prefix_rfl, .inl ⟨by simpa using hf, k, hk, rfl⟩, fun _ _ h => .inl h⟩
  · rw [he]
    exact ⟨List.prefix_rfl, .inr ⟨by simpa using hf, rfl, hnot, hfull⟩, fun _ _ h => .inl h⟩
  · rw [hid, hvals]
    refine ⟨List.prefix_append _ _, .inl ⟨by simpa using hf, t.toValue.length, ?_, rfl⟩, fun k s hs => ?_⟩
    · rw [hvals]
      simp
    · rcases Nat.lt_or_ge k t.toValue.length with hlt | hge
      · exact .inl (by rwa [List.getElem?_append_left hlt] at hs)
      · rw [List.getElem?_append_right hge, List.getElem?_singleton] at hs
        split at hs
        · have hkl : k = t.toValue.length := by omega
          exact .inr ⟨(Option.some.inj hs).symm, by rw [hkl], hf⟩
        · cases hs

/-- An explanation outlives the table's growth. -/
theorem Explains.mono {t t' : InternTable} {g : Given} (h : Explains t g) (hcap : t'.cap = t.cap)
    (hvals : t.toValue <+: t'.toValue) : Explains t' g := by
  rcases h with ⟨hf, k, hk, hid⟩ | ⟨hf, hid, hnot, hfull⟩
  · obtain ⟨rest, hrest⟩ := hvals
    refine .inl ⟨hf, k, ?_, hid⟩
    rw [← hrest, List.getElem?_append_left (List.getElem?_eq_some_iff.mp hk).1, hk]
  · have hlen := hvals.length_le
    have hwithin := t'.within
    have heq : t.toValue = t'.toValue := hvals.eq_of_length (by omega)
    exact .inr ⟨hf, hid, heq ▸ hnot, by rw [← heq, hfull, hcap]⟩

/-- **A sequence of calls.** -/
theorem run_spec : ∀ (calls : List String) (t : InternTable),
    (t.run calls).2.cap = t.cap ∧ t.toValue <+: (t.run calls).2.toValue ∧
      (t.run calls).1.map Given.value = calls ∧ (∀ g ∈ (t.run calls).1, Explains (t.run calls).2 g) ∧
      ∀ k s, (t.run calls).2.toValue[k]? = some s → t.toValue[k]? = some s ∨
        ∃ g ∈ (t.run calls).1, g.value = s ∧ g.id = idAt k ∧ g.folded = false
  | [], t => ⟨rfl, List.prefix_rfl, rfl, fun _ h => absurd h List.not_mem_nil, fun _ _ h => .inl h⟩
  | value :: calls, t => by
    obtain ⟨hgrow, hfirst, hgain⟩ := intern_spec t value
    obtain ⟨hcap, hgrow', hvalues, hrest, hgain'⟩ := run_spec calls (t.intern value).2
    refine ⟨by rw [run, hcap, cap_intern], hgrow.trans hgrow', by rw [run, List.map_cons, hvalues], ?_, ?_⟩
    · intro g hg
      rcases List.mem_cons.mp hg with rfl | hg
      · exact hfirst.mono (by rw [run, hcap]) hgrow'
      · exact hrest g hg
    · intro k s hs
      rcases hgain' k s hs with hin | ⟨g, hg, hgiven⟩
      · rcases hgain k s hin with hold | ⟨rfl, hid, hf⟩
        · exact .inl hold
        · exact .inr ⟨_, List.mem_cons_self, rfl, hid, by simpa using hf⟩
      · exact .inr ⟨g, List.mem_cons_of_mem _ hg, hgiven⟩

section
variable (cap : ℕ) (calls : List String)

theorem explains_run {g : Given} (hg : g ∈ ((new cap).run calls).1) : Explains ((new cap).run calls).2 g :=
  (run_spec calls (new cap)).2.2.2.1 g hg

/-- Each value of the table was given its id. -/
theorem exists_given {k : ℕ} {s : String} (h : ((new cap).run calls).2.toValue[k]? = some s) :
    ∃ g ∈ ((new cap).run calls).1, g.value = s ∧ g.id = idAt k ∧ g.folded = false := by
  rcases (run_spec calls (new cap)).2.2.2.2 k s h with hin | hgiven
  · cases hin
  · exact hgiven

/-- The table holds the distinct strings of the calls, up to its cap. -/
theorem length_run : ((new cap).run calls).2.toValue.length = min cap calls.toFinset.card := by
  have hvalues := (run_spec calls (new cap)).2.2.1
  have hcap : ((new cap).run calls).2.cap = cap := (run_spec calls (new cap)).1
  have hcard := List.toFinset_card_of_nodup ((new cap).run calls).2.nodup
  have hsub : ((new cap).run calls).2.toValue.toFinset ⊆ calls.toFinset := by
    intro s hs
    obtain ⟨k, hk⟩ := List.mem_iff_getElem?.mp (List.mem_toFinset.mp hs)
    obtain ⟨g, hg, rfl, -⟩ := exists_given cap calls hk
    exact List.mem_toFinset.mpr (hvalues ▸ List.mem_map_of_mem hg)
  have hle := Finset.card_le_card hsub
  have hwithin := ((new cap).run calls).2.within
  rcases Nat.lt_or_ge ((new cap).run calls).2.toValue.length cap with hroom | hfull
  · -- no call was folded, so every string has its place
    have hsup : calls.toFinset ⊆ ((new cap).run calls).2.toValue.toFinset := by
      intro s hs
      rw [List.mem_toFinset, ← hvalues] at hs
      obtain ⟨g, hg, rfl⟩ := List.mem_map.mp hs
      rcases explains_run cap calls hg with ⟨-, k, hk, -⟩ | ⟨-, -, -, hfull⟩
      · exact List.mem_toFinset.mpr (List.mem_of_getElem? hk)
      · omega
    have := Finset.card_le_card hsup
    omega
  · omega

end

/-! ### Bounded bijection -/

theorem idAt_eq {k : ℕ} (h : k < 2 ^ 32 - 2) : idAt k = firstRealId + k := by
  unfold idAt firstRealId
  omega

/-- What the answers of a run and the table it ends in owe each other. -/
structure BoundedBijection (cap : ℕ) (answers : List Given) (t : InternTable) : Prop where
  /-- Equal strings have equal ids, whenever they were given. -/
  stable : ∀ a ∈ answers, ∀ b ∈ answers, a.value = b.value → a.id = b.id
  /-- Different strings share an id only where both were folded. -/
  apart : ∀ a ∈ answers, ∀ b ∈ answers, a.value ≠ b.value → a.id = b.id → a.folded = true ∧ b.folded = true
  overflow : ∀ a ∈ answers, a.folded = true → a.id = overflowId
  unreserved : ∀ a ∈ answers, a.folded = false → a.id ≠ overflowId ∧ a.id ≠ absentId
  resolves : ∀ a ∈ answers, a.folded = false → t.resolve a.id = a.value
  bounded : ((answers.map Given.id).toFinset.filter (firstRealId ≤ ·)).card ≤ cap

section
variable {cap : ℕ} {calls : List String}

/-- A table that never holds more than `2^32 - 2` values is one. -/
theorem boundedBijection_of_le (h : min cap calls.toFinset.card ≤ 2 ^ 32 - 2) :
    BoundedBijection cap ((new cap).run calls).1 ((new cap).run calls).2 := by
  have hexplains := fun g (hg : g ∈ ((new cap).run calls).1) => explains_run cap calls hg
  have hcap : ((new cap).run calls).2.cap = cap := (run_spec calls (new cap)).1
  have hlen := length_run cap calls
  generalize (new cap).run calls = after at *
  obtain ⟨answers, t⟩ := after
  -- the id of an answer that was not folded is its place in the table
  have hplace : ∀ a ∈ answers, a.folded = false → ∃ k, t.toValue[k]? = some a.value ∧ a.id = firstRealId + k := by
    intro a ha hf
    rcases hexplains a ha with ⟨-, k, hk, hid⟩ | ⟨hf', -⟩
    · have hk' := (List.getElem?_eq_some_iff.mp hk).1
      simp only at hlen hk'
      exact ⟨k, hk, by rw [hid, idAt_eq (by omega)]⟩
    · rw [hf] at hf'
      cases hf'
  have hfold : ∀ a ∈ answers, a.folded = true → a.id = overflowId ∧ a.value ∉ t.toValue := by
    intro a ha hf
    rcases hexplains a ha with ⟨hf', -⟩ | ⟨-, hid, hnot, -⟩
    · rw [hf] at hf'
      cases hf'
    · exact ⟨hid, hnot⟩
  refine ⟨?_, ?_, fun a ha hf => (hfold a ha hf).1, ?_, ?_, ?_⟩
  · intro a ha b hb hv
    cases hfa : a.folded <;> cases hfb : b.folded
    · obtain ⟨k, hk, hid⟩ := hplace a ha hfa
      obtain ⟨k', hk', hid'⟩ := hplace b hb hfb
      rw [← hv] at hk'
      have hkk : k = k' := (List.getElem?_inj (List.getElem?_eq_some_iff.mp hk).1 t.nodup).mp (hk.trans hk'.symm)
      rw [hid, hid', hkk]
    · obtain ⟨k, hk, -⟩ := hplace a ha hfa
      exact absurd (List.mem_of_getElem? hk) (hv ▸ (hfold b hb hfb).2)
    · obtain ⟨k, hk, -⟩ := hplace b hb hfb
      exact absurd (List.mem_of_getElem? hk) (hv ▸ (hfold a ha hfa).2)
    · rw [(hfold a ha hfa).1, (hfold b hb hfb).1]
  · intro a ha b hb hv hid
    cases hfa : a.folded <;> cases hfb : b.folded
    · obtain ⟨k, hk, hida⟩ := hplace a ha hfa
      obtain ⟨k', hk', hidb⟩ := hplace b hb hfb
      have hkk : k = k' := by omega
      rw [hkk, hk'] at hk
      exact absurd (Option.some.inj hk).symm hv
    · obtain ⟨k, -, hida⟩ := hplace a ha hfa
      rw [(hfold b hb hfb).1] at hid
      unfold overflowId firstRealId at *
      omega
    · obtain ⟨k, -, hidb⟩ := hplace b hb hfb
      rw [(hfold a ha hfa).1] at hid
      unfold overflowId firstRealId at *
      omega
    · exact ⟨rfl, rfl⟩
  · intro a ha hf
    obtain ⟨k, -, hid⟩ := hplace a ha hf
    unfold overflowId absentId firstRealId at *
    omega
  · intro a ha hf
    obtain ⟨k, hk, hid⟩ := hplace a ha hf
    unfold resolve
    rw [if_neg (by unfold overflowId firstRealId at *; omega), if_neg (by unfold absentId firstRealId at *; omega), hid,
      Nat.add_sub_cancel_left, hk, Option.getD_some]
  · have hsub : (answers.map Given.id).toFinset.filter (firstRealId ≤ ·) ⊆
        (Finset.range t.toValue.length).image (firstRealId + ·) := by
      intro id hid
      obtain ⟨hmem, hreal⟩ := Finset.mem_filter.mp hid
      obtain ⟨a, ha, rfl⟩ := List.mem_map.mp (List.mem_toFinset.mp hmem)
      cases hf : a.folded with
      | true =>
        rw [(hfold a ha hf).1] at hreal
        unfold overflowId firstRealId at hreal
        omega
      | false =>
        obtain ⟨k, hk, hid⟩ := hplace a ha hf
        exact Finset.mem_image.mpr ⟨k, Finset.mem_range.mpr (List.getElem?_eq_some_iff.mp hk).1, hid.symm⟩
    calc _ ≤ ((Finset.range t.toValue.length).image (firstRealId + ·)).card := Finset.card_le_card hsub
      _ ≤ t.toValue.length := Finset.card_image_le.trans (Finset.card_range _).le
      _ ≤ cap := hcap ▸ t.within

/-- A table that holds more gives a string the overflow id. -/
theorem not_boundedBijection (h : 2 ^ 32 - 2 < min cap calls.toFinset.card) :
    ¬ BoundedBijection cap ((new cap).run calls).1 ((new cap).run calls).2 := by
  intro hb
  have hlen := length_run cap calls
  have hlt : 2 ^ 32 - 2 < ((new cap).run calls).2.toValue.length := by omega
  obtain ⟨g, hg, -, hid, hf⟩ := exists_given cap calls (List.getElem?_eq_getElem hlt)
  have hzero : idAt (2 ^ 32 - 2) = overflowId := by decide
  exact (hb.unreserved g hg hf).1 (hid.trans hzero)

end

/-- **The interner is a bounded bijection exactly up to `2^32 - 2` values**,
after every one of its calls. -/
theorem bounded_bijection_iff (cap : ℕ) (calls : List String) :
    (∀ n, BoundedBijection cap ((new cap).run (calls.take n)).1 ((new cap).run (calls.take n)).2) ↔
      min cap calls.toFinset.card ≤ 2 ^ 32 - 2 := by
  constructor
  · intro h
    by_contra hlt
    have := h calls.length
    rw [List.take_length] at this
    exact not_boundedBijection (by omega) this
  · intro h n
    have hsub : (calls.take n).toFinset ⊆ calls.toFinset := fun s hs =>
      List.mem_toFinset.mpr (List.mem_of_mem_take (List.mem_toFinset.mp hs))
    have := Finset.card_le_card hsub
    exact boundedBijection_of_le (by omega)

/-- As many strings as asked for, each of another length. -/
def strokes (n : ℕ) : List String := (List.range n).map fun i => String.ofList (List.replicate i 'a')

theorem card_strokes (n : ℕ) : (strokes n).toFinset.card = n := by
  have hnodup : (strokes n).Nodup := by
    refine List.Nodup.map (fun i j hij => ?_) List.nodup_range
    have := congrArg (fun s => s.toList.length) hij
    simpa using this
  rw [List.toFinset_card_of_nodup hnodup, strokes, List.length_map, List.length_range]

theorem interner_wraps :
    ¬ ∀ (cap : ℕ) (calls : List String),
      BoundedBijection cap ((new cap).run calls).1 ((new cap).run calls).2 := by
  intro h
  refine not_boundedBijection ?_ (h (2 ^ 32 - 1) (strokes (2 ^ 32 - 1)))
  rw [card_strokes]
  omega

/-! ### The table of the collectors -/

/-- The table with ids of unbounded width. -/
structure Agrees (i : Interner) (t : InternTable) : Prop where
  toId : i.toId = t.toId
  toValue : i.toValue = t.toValue
  cap : i.cap = t.cap
  capped : i.capped = t.capped

theorem Agrees.new (cap : ℕ) : Agrees (Interner.new cap) (InternTable.new cap) := ⟨rfl, rfl, rfl, rfl⟩

/-- **Under a cap the ids have room for, the two tables give the same ids**,
and read them the same. -/
theorem Agrees.intern {i : Interner} {t : InternTable} (h : Agrees i t) (hcap : t.cap ≤ 2 ^ 32 - 2) (value : String) :
    (i.intern value).1 = (t.intern value).1 ∧ Agrees (i.intern value).2 (t.intern value).2 := by
  obtain ⟨hid, hval, hc, hflag⟩ := h
  cases hv : t.toId.get? value with
  | some id =>
    have hvi : i.toId.get? value = some id := hid ▸ hv
    rw [intern_of_some hv]
    simp only [Interner.intern, hvi]
    exact ⟨trivial, hid, hval, hc, hflag⟩
  | none =>
    have hvi : i.toId.get? value = none := hid ▸ hv
    by_cases hfull : t.toValue.length ≥ t.cap
    · have hfulli : i.toValue.length ≥ i.cap := by rwa [hval, hc]
      rw [intern_of_full hv hfull]
      simp only [Interner.intern, hvi, dif_pos hfulli]
      exact ⟨trivial, hid, hval, hc, rfl⟩
    · have hfulli : ¬ i.toValue.length ≥ i.cap := by rwa [hval, hc]
      have hnext : firstRealId + i.toValue.length = idAt t.toValue.length := by rw [hval, idAt_eq (by omega)]
      have hids : i.toId.insert value (firstRealId + i.toValue.length) = t.toId.insert value (idAt t.toValue.length) := by
        rw [hid, hnext]
      have hvals : i.toValue ++ [value] = t.toValue ++ [value] := by rw [hval]
      obtain ⟨h1, h2, h3, h4⟩ := intern_of_room hv hfull
      simp only [Interner.intern, hvi, dif_neg hfulli]
      exact ⟨hnext.trans h1.symm, hids.trans h2.symm, hvals.trans h3.symm, hc.trans (cap_intern t value).symm,
        hflag.trans h4.symm⟩

end Logmon
