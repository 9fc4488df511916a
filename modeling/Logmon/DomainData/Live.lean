/-
# What live calls can make of a registry

The calls on a live domain keep four rules (`Rules`): keys parse without a
sigil, the agents' are at most `maxKeys`, their values at most
`maxValueBytes`, and no lifetime is zero. Nothing else holds of the registries
they make: any agents' registry under the rules is made by some run of
batches (`reached_of_rules`), two for each fact.

Key definitions: `liveCall`, `Registry.Rules`, `Statable`.
Key theorems: `Registry.rules_of_reach`, `Registry.reached_of_rules`.
-/
import Logmon.DomainData.Duration
import Logmon.DomainData.Store

namespace Logmon
namespace DomainData

open Lib

namespace Registry

/-- A call on a live domain, with the lifetimes `parse_ttl` makes. -/
def liveCall (r : Registry) (a : RegistryAct) : Prop :=
  r.live a ∧ ∀ es now, a = .update es now → ∀ d ∈ es, ∀ secs, d.ttl = some (.set secs) →
    ∃ text, parseDuration text = some (.ok secs)

/-- The rules of a live domain's registry. -/
structure Rules (r : Registry) : Prop where
  keys : ∀ key, (r.get? key).isSome = true → IsKey key
  room : r.countedLen ≤ maxKeys
  values : ∀ key e, r.get? key = some e → isReserved key = false → e.value.utf8ByteSize ≤ maxValueBytes
  lifetimes : ∀ key e, r.get? key = some e → e.ttlSecs ≠ some 0

variable {r : Registry}

/-! ### The rules are kept -/

/-- What holds of an agent's entry: its value fits, and its lifetime is not
zero. -/
def Sized (r : Registry) : Prop := ∀ key e, r.get? key = some e →
  (isReserved key = false → e.value.utf8ByteSize ≤ maxValueBytes) ∧ e.ttlSecs ≠ some 0

theorem Sized.modify (h : r.Sized) (key : String) (f : Entry → Entry)
    (hf : ∀ e, r.get? key = some e → (isReserved key = false → (f e).value.utf8ByteSize ≤ maxValueBytes) ∧
      (f e).ttlSecs ≠ some 0) : (r.modify key f).Sized := by
  intro k e he
  rw [get?_modify] at he
  split_ifs at he with hk
  · obtain ⟨e0, he0, rfl⟩ := Option.map_eq_some_iff.mp he
    rw [hk] at he0 ⊢
    exact hf e0 he0
  · exact h k e he

theorem Sized.insert (h : r.Sized) {key : String} {e : Entry}
    (hvalue : isReserved key = false → e.value.utf8ByteSize ≤ maxValueBytes) (httl : e.ttlSecs ≠ some 0) :
    (r.insert key e).Sized := by
  intro k e' he'
  rw [get?_insert] at he'
  split_ifs at he' with hk
  · obtain rfl := Option.some.inj he'
    rw [hk]
    exact ⟨hvalue, httl⟩
  · exact h k e' he'

/-- A value past the bound is refused. -/
theorem applyOne_of_long {e : DataEntry} {now : ℤ} {v : String} (hv : e.value = some v)
    (hlong : maxValueBytes < v.utf8ByteSize) : (r.applyOne e now).1 = r := by
  unfold applyOne
  split
  · rfl
  · split
    · rfl
    · rw [if_pos (by simp [hv, hlong])]

/-- The lifetime a request leaves is not zero. -/
theorem ttlSecs_getD_ne {ttl : Option TtlSpec} {old : Option ℕ} (hold : old ≠ some 0)
    (httl : ∀ secs, ttl = some (.set secs) → 0 < secs) : (ttlSecsOf ttl).getD old ≠ some 0 := by
  cases ttl with
  | none => exact hold
  | some t =>
    cases t with
    | clear => simp [ttlSecsOf]
    | set secs =>
      have := httl secs rfl
      simp only [ttlSecsOf, Option.getD_some, ne_eq, Option.some.injEq]
      omega

theorem Sized.applyOne (h : r.Sized) (e : DataEntry) (now : ℤ) (httl : ∀ secs, e.ttl = some (.set secs) → 0 < secs) :
    (r.applyOne e now).1.Sized := by
  by_cases hlong : ∃ v, e.value = some v ∧ maxValueBytes < v.utf8ByteSize
  · obtain ⟨v, hv, hlt⟩ := hlong
    rw [applyOne_of_long hv hlt]
    exact h
  have hfits : ∀ v, e.value = some v → v.utf8ByteSize ≤ maxValueBytes :=
    fun v hv => Nat.le_of_not_lt fun hlt => hlong ⟨v, hv, hlt⟩
  rcases r.applyOne_cases e now with ⟨o, ho, -⟩ | ⟨hagent, -, ⟨x, f, o, hx, ho, -, hf⟩ | ⟨v, hv, -, -, ho⟩⟩
  · rw [ho]
    exact h
  · rw [ho]
    refine h.modify _ _ fun e0 he0 => ?_
    obtain ⟨hvalue, hlife⟩ := h _ _ he0
    rcases hf with ⟨-, rfl⟩ | ⟨v, hv, rfl⟩
    · exact ⟨hvalue, ttlSecs_getD_ne hlife httl⟩
    · unfold restated confirmed
      split_ifs
      · exact ⟨fun _ => hfits v hv, ttlSecs_getD_ne hlife httl⟩
      · exact ⟨hvalue, ttlSecs_getD_ne hlife httl⟩
  · rw [ho]
    refine h.insert (fun _ => hfits v hv) ?_
    have := @ttlSecs_getD_ne e.ttl none (by simp) httl
    show (ttlSecsOf e.ttl).join ≠ some 0
    cases hs : ttlSecsOf e.ttl with
    | none => simp
    | some t => simpa [hs] using this

theorem Sized.update (now : ℤ) : ∀ (es : List DataEntry) {r : Registry}, r.Sized →
    (∀ d ∈ es, ∀ secs, d.ttl = some (.set secs) → 0 < secs) → (r.update es now).1.Sized
  | [], _, h, _ => h
  | e :: es, r, h, httl => Sized.update now es (r := (r.applyOne e now).1) (h.applyOne e now (httl e List.mem_cons_self))
      fun d hd => httl d (List.mem_cons_of_mem _ hd)

theorem Sized.removeOne (h : r.Sized) (pattern : String) : (r.removeOne pattern).1.Sized := by
  rcases r.removeOne_cases pattern with ⟨reason, ho⟩ | ⟨ks, ho, -⟩
  · rw [ho]
    exact h
  · rw [ho]
    intro k e he
    have he' : (ks.foldl FMap.erase r.entries).get? k = some e := he
    rw [get?_foldl_erase] at he'
    split_ifs at he'
    exact h k e he'

theorem Sized.remove : ∀ (ps : List String) {r : Registry}, r.Sized → (r.remove ps).1.Sized
  | [], _, h => h
  | p :: ps, r, h => Sized.remove ps (r := (r.removeOne p).1) (h.removeOne p)

theorem Sized.setReserved (h : r.Sized) (path value : String) (now : ℤ) : (r.setReserved path value now).1.Sized := by
  unfold Registry.setReserved
  by_cases hres : isReserved path = true
  · simp only [hres, Bool.not_true, Bool.false_eq_true, if_false]
    cases hget : r.get? path with
    | none => exact h.insert (fun hno => absurd hres (by simp [hno])) (by simp [Entry.new])
    | some existing =>
      refine h.modify _ _ fun e he => ⟨fun hno => absurd hres (by simp [hno]), ?_⟩
      have hlife := (h _ _ he).2
      unfold restated confirmed
      split_ifs <;> simpa using hlife
  · rw [if_pos (by simpa using hres)]
    exact h

/-- **Live calls keep the rules.** -/
theorem rules_of_reach (h : Reach step liveCall new r) : r.Rules := by
  have hboth : r.Ruled ∧ r.Sized := by
    refine h.invariant (I := fun r => r.Ruled ∧ r.Sized) ⟨ruled_new, fun k e he => by simp [new, get?] at he⟩ ?_
    rintro s a s' ⟨hruled, hsized⟩ ⟨hlive, httl⟩ hstep
    refine ⟨hruled.step hlive hstep, ?_⟩
    cases a with
    | update es now =>
      obtain rfl := Option.some.inj hstep
      refine Sized.update now es hsized fun d hd secs hsecs => ?_
      obtain ⟨text, htext⟩ := httl es now rfl d hd secs hsecs
      exact parseDuration_pos htext
    | remove ps =>
      obtain rfl := Option.some.inj hstep
      exact Sized.remove ps hsized
    | setReserved path value now =>
      obtain rfl := Option.some.inj hstep
      exact hsized.setReserved path value now
    | restore => exact absurd hlive id
  exact ⟨hboth.1.keys, hboth.1.counted_le, fun k e he => (hboth.2 k e he).1, fun k e he => (hboth.2 k e he).2⟩

/-! ### Every registry under the rules is made -/

/-- The batches that state one fact: its value, and later a confirmation. -/
def stateFact (r : Registry) (key : String) (e : Entry) : Registry :=
  ((r.update [⟨key, some e.value, e.ttlSecs.map .set⟩] e.createdAt).1.update [⟨key, none, none⟩] e.validatedAt).1

/-- A fact that may be stated: its value fits, and its lifetime has a text. -/
structure Statable (p : String × Entry) : Prop where
  key : IsKey p.1
  agent : isReserved p.1 = false
  value : p.2.value.utf8ByteSize ≤ maxValueBytes
  lifetime : ∀ secs, p.2.ttlSecs = some secs → 0 < secs ∧ secs ≤ u64Max

theorem Statable.parse {p : String × Entry} (h : Statable p) : Key.parse p.1 false = .ok ⟨p.1, false⟩ := by
  obtain ⟨k, hparse, -, -⟩ := h.key
  rw [hparse, (Key.parse_unscoped hparse).1]

/-- The first batch seats the fact. -/
theorem applyOne_seat {p : String × Entry} (h : Statable p) (hfree : r.get? p.1 = none) (hroom : r.countedLen < maxKeys)
    (now : ℤ) : (r.applyOne ⟨p.1, some p.2.value, p.2.ttlSecs.map .set⟩ now).1 =
      r.insert p.1 (.new p.2.value now p.2.ttlSecs) := by
  have hfits : ¬ maxValueBytes < p.2.value.utf8ByteSize := Nat.not_lt.mpr h.value
  have hspace : ¬ maxKeys ≤ r.countedLen := Nat.not_le.mpr hroom
  have hrendered : Key.rendered ⟨p.1, false⟩ = p.1 := rfl
  have httl : (ttlSecsOf (p.2.ttlSecs.map .set)).join = p.2.ttlSecs := by cases p.2.ttlSecs <;> rfl
  unfold applyOne
  rw [h.parse]
  simp only [h.agent, Bool.false_eq_true, ↓reduceIte, Option.any_some, hfits, decide_false, hrendered, store, hfree,
    hspace, httl]

/-- The second batch confirms it. -/
theorem applyOne_confirm {p : String × Entry} (h : Statable p) {e : Entry} (hheld : r.get? p.1 = some e) (now : ℤ) :
    (r.applyOne ⟨p.1, none, none⟩ now).1 = r.modify p.1 (confirmed now none) := by
  have hrendered : Key.rendered ⟨p.1, false⟩ = p.1 := rfl
  unfold applyOne
  rw [h.parse]
  simp only [h.agent, Bool.false_eq_true, ↓reduceIte, Option.any_none, hrendered, store, hheld, ttlSecsOf]

/-- **Two batches state a fact** under a key that is free, and nothing else. -/
theorem stateFact_eq {p : String × Entry} (h : Statable p) (hfree : r.get? p.1 = none) (hroom : r.countedLen < maxKeys) :
    r.stateFact p.1 p.2 =
      (r.insert p.1 (.new p.2.value p.2.createdAt p.2.ttlSecs)).modify p.1 (confirmed p.2.validatedAt none) := by
  show (((r.applyOne _ _).1).applyOne _ _).1 = _
  rw [applyOne_seat h hfree hroom]
  exact applyOne_confirm h (by rw [get?_insert, if_pos rfl]) _

theorem get?_stateFact {p : String × Entry} (h : Statable p) (hfree : r.get? p.1 = none) (hroom : r.countedLen < maxKeys)
    (k : String) : (r.stateFact p.1 p.2).get? k = if k = p.1 then some p.2 else r.get? k := by
  rw [stateFact_eq h hfree hroom, get?_modify, get?_insert]
  split_ifs <;> rfl

theorem countedLen_stateFact {p : String × Entry} (h : Statable p) (hfree : r.get? p.1 = none)
    (hroom : r.countedLen < maxKeys) : (r.stateFact p.1 p.2).countedLen ≤ r.countedLen + 1 := by
  rw [stateFact_eq h hfree hroom]
  unfold countedLen
  rw [counted_modify]
  refine le_trans (countedLen_insert _ _) ?_
  rw [h.agent]
  exact le_rfl

/-- Stating a fact is two live calls. -/
theorem reach_stateFact {p : String × Entry} (h : Statable p) (hr : Reach step liveCall new r) :
    Reach step liveCall new (r.stateFact p.1 p.2) := by
  refine .next (a := .update [⟨p.1, none, none⟩] p.2.validatedAt) (.next
    (a := .update [⟨p.1, some p.2.value, p.2.ttlSecs.map .set⟩] p.2.createdAt) hr ⟨trivial, ?_⟩ rfl) ⟨trivial, ?_⟩ rfl
  · rintro es now hact d hd secs hsecs
    obtain ⟨rfl, rfl⟩ : _ = es ∧ _ = now := by simpa using hact
    obtain rfl := List.mem_singleton.mp hd
    obtain ⟨t, ht, hset⟩ := Option.map_eq_some_iff.mp hsecs
    obtain rfl : t = secs := by simpa using hset
    obtain ⟨hpos, hle⟩ := h.lifetime t ht
    exact ⟨_, parseDuration_secs hpos hle⟩
  · rintro es now hact d hd secs hsecs
    obtain ⟨rfl, rfl⟩ : _ = es ∧ _ = now := by simpa using hact
    obtain rfl := List.mem_singleton.mp hd
    cases hsecs

/-- Facts under keys of their own are stated one after another. -/
theorem reached_of_facts : ∀ (facts : List (String × Entry)) {r : Registry}, Reach step liveCall new r →
    (facts.map Prod.fst).Nodup → (∀ p ∈ facts, Statable p) → (∀ p ∈ facts, r.get? p.1 = none) →
    r.countedLen + facts.length ≤ maxKeys →
    ∃ r', Reach step liveCall new r' ∧ (∀ p ∈ facts, r'.get? p.1 = some p.2) ∧
      ∀ k ∉ facts.map Prod.fst, r'.get? k = r.get? k
  | [], r, hr, _, _, _, _ => ⟨r, hr, by simp, fun _ _ => rfl⟩
  | p :: facts, r, hr, hnodup, hstat, hfree, hroom => by
    obtain ⟨hp, hnodup'⟩ := List.nodup_cons.mp hnodup
    have hstatp := hstat p List.mem_cons_self
    have hfreep := hfree p List.mem_cons_self
    rw [List.length_cons] at hroom
    have hroomp : r.countedLen < maxKeys := by omega
    have hget := get?_stateFact hstatp hfreep hroomp
    have hcount := countedLen_stateFact hstatp hfreep hroomp
    obtain ⟨r', hr', hin, hout⟩ := reached_of_facts facts (reach_stateFact hstatp hr) hnodup'
      (fun q hq => hstat q (List.mem_cons_of_mem _ hq))
      (fun q hq => by
        have hne : q.1 ≠ p.1 := fun he => hp (he ▸ List.mem_map_of_mem hq)
        rw [hget, if_neg hne]
        exact hfree q (List.mem_cons_of_mem _ hq))
      (by omega)
    refine ⟨r', hr', List.forall_mem_cons.mpr ⟨?_, hin⟩, fun k hk => ?_⟩
    · rw [hout p.1 hp, hget, if_pos rfl]
    · obtain ⟨hne, hk'⟩ : k ≠ p.1 ∧ k ∉ facts.map Prod.fst := by simpa using hk
      rw [hout k hk', hget, if_neg hne]

/-- **Every registry of statable facts is made by live calls.** -/
theorem reached_of_rules (hlen : r.entries.entries.length ≤ maxKeys)
    (hstat : ∀ key e, r.get? key = some e → Statable (key, e)) :
    ∃ r', Reach step liveCall new r' ∧ ∀ key, r'.get? key = r.get? key := by
  have hzero : new.countedLen = 0 := rfl
  obtain ⟨r', hr', hin, hout⟩ := reached_of_facts r.entries.entries .start r.entries.nodup
    (fun p hp => hstat p.1 p.2 (FMap.mem_iff.mp hp)) (fun _ _ => rfl) (hlen.trans' (by rw [hzero, Nat.zero_add]))
  refine ⟨r', hr', fun key => ?_⟩
  cases hget : r.get? key with
  | some e => exact hin (key, e) (FMap.mem_iff.mpr hget)
  | none =>
    rw [hout key]
    · rfl
    · rw [FMap.mem_keys_iff]
      have hnone : r.entries.get? key = none := hget
      simp [hnone]

end Registry
end DomainData
end Logmon
