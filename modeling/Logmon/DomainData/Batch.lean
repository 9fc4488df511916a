/-
# When a batch changes nothing

A batch of `update` never takes a key away: it seats the keys it finds free
while there is room, and each entry that is accepted touches the one fact its
key holds. So what a batch makes of a held fact is a fold over the entries for
its key, and a batch leaves the registry as it is exactly when it seats
nothing and every fold ends where it began (`update_unmoved_iff`).

Key definitions: `DataEntry.admissible`, `touch`, `Seats`, `SettledAt`,
`Registry.Unmoved`.
Key theorems: `get?_update_held`, `foldl_touch_eq_self_iff`,
`update_unmoved_iff`.
-/
import Logmon.DomainData.Store

namespace Logmon
namespace DomainData

open Lib

/-- The entry names an agent's key, with a value within its bound. -/
def DataEntry.admissible (d : DataEntry) : Bool :=
  match Key.parse d.path false with
  | .error _ => false
  | .ok key => !isReserved key.path && !(d.value.any fun v => maxValueBytes < v.utf8ByteSize)

namespace Registry

/-- What an entry makes of the fact its key holds. -/
def touch (now : ℤ) (e : Entry) (d : DataEntry) : Entry :=
  match d.value with
  | none => confirmed now (ttlSecsOf d.ttl) e
  | some v => restated v now (ttlSecsOf d.ttl) e

/-- The entries a batch has for a key. -/
def batchAt (key : String) (es : List DataEntry) : List DataEntry := es.filter fun d => d.admissible && d.path = key

theorem batchAt_cons (key : String) (d : DataEntry) (es : List DataEntry) : batchAt key (d :: es) =
    if (d.admissible && d.path = key) = true then d :: batchAt key es else batchAt key es := List.filter_cons

variable {r : Registry} {now : ℤ} {key : String}

/-! ### One entry -/

theorem applyOne_inadmissible {d : DataEntry} (h : d.admissible = false) : (r.applyOne d now).1 = r := by
  unfold DataEntry.admissible at h
  unfold applyOne
  split
  · rfl
  · rename_i k hk
    rw [hk] at h
    dsimp only at h
    split
    · rfl
    · rename_i hagent
      rw [Bool.not_eq_true] at hagent
      rw [hagent, Bool.not_false, Bool.true_and, Bool.not_eq_false'] at h
      rw [if_pos h]

theorem applyOne_admissible {d : DataEntry} (h : d.admissible = true) :
    r.applyOne d now = r.store d.path d.value (ttlSecsOf d.ttl) now := by
  unfold DataEntry.admissible at h
  unfold applyOne
  split
  · rename_i err herr
    rw [herr] at h
    simp at h
  · rename_i k hk
    rw [hk] at h
    obtain ⟨hagent, hfits⟩ := Bool.and_eq_true_iff.mp h
    rw [if_neg (by simpa using hagent), if_neg (by simpa using hfits), (isKey_of_parse hk).1]

/-- **An entry is refused for want of room** only where it would seat a key of
its own: a held key is stated again whatever the cap. -/
theorem applyOne_full_iff (r : Registry) (d : DataEntry) (now : ℤ) :
    (r.applyOne d now).2 = .rejected .registryFull ↔
      d.admissible = true ∧ d.value.isSome = true ∧ r.get? d.path = none ∧ maxKeys ≤ r.countedLen := by
  cases hd : d.admissible with
  | false =>
    refine iff_of_false (fun h => ?_) fun h => absurd h.1 (by simp)
    unfold DataEntry.admissible at hd
    unfold applyOne at h
    split at h
    · rename_i err _
      cases err <;> simp [KeyError.reason] at h
    · rename_i k hk
      rw [hk] at hd
      dsimp only at hd
      split at h
      · simp at h
      rename_i hagent
      rw [Bool.not_eq_true] at hagent
      rw [hagent, Bool.not_false, Bool.true_and, Bool.not_eq_false'] at hd
      rw [if_pos hd] at h
      simp at h
  | true =>
    rw [applyOne_admissible hd]
    unfold store
    cases d.value with
    | none => cases r.get? d.path <;> simp
    | some v =>
      cases r.get? d.path with
      | some e => by_cases hv : e.value = v <;> simp [hv]
      | none => by_cases hroom : maxKeys ≤ r.countedLen <;> simp [hroom]

/-- A held key is touched by an entry of its own, and by no other. -/
theorem get?_applyOne_held {e : Entry} (he : r.get? key = some e) (d : DataEntry) :
    (r.applyOne d now).1.get? key = some (if (d.admissible && d.path = key) = true then touch now e d else e) := by
  cases hd : d.admissible with
  | false => simp [applyOne_inadmissible hd, he]
  | true =>
    rw [applyOne_admissible hd, Bool.true_and]
    unfold store touch
    by_cases hkey : d.path = key
    · rw [hkey, he]
      cases d.value <;> simp [get?_modify, he]
    · have hne : ¬ key = d.path := fun h => hkey h.symm
      cases d.value with
      | none =>
        cases r.get? d.path <;> simp [get?_modify, hne, hkey, he]
      | some v =>
        cases r.get? d.path with
        | some x => simp [get?_modify, hne, hkey, he]
        | none =>
          simp only
          split <;> simp [get?_insert, hne, hkey, he]

/-- The entry would seat its key. -/
def seats (r : Registry) (d : DataEntry) : Prop :=
  r.countedLen < maxKeys ∧ d.admissible = true ∧ r.get? d.path = none ∧ d.value.isSome = true

theorem applyOne_seats {d : DataEntry} (h : r.seats d) : (r.applyOne d now).1.get? d.path ≠ none := by
  obtain ⟨hroom, hd, hfree, hvalue⟩ := h
  obtain ⟨v, hv⟩ := Option.isSome_iff_exists.mp hvalue
  rw [applyOne_admissible hd]
  unfold store
  rw [hv, hfree]
  simp only
  rw [if_neg (by omega), get?_insert, if_pos rfl]
  simp

/-- An entry that seats nothing leaves which keys are held. -/
theorem applyOne_quiet {d : DataEntry} (h : ¬ r.seats d) : (r.applyOne d now).1.countedLen = r.countedLen ∧
    ∀ key, (r.applyOne d now).1.get? key = none ↔ r.get? key = none := by
  cases hd : d.admissible with
  | false =>
    rw [applyOne_inadmissible hd]
    exact ⟨rfl, fun _ => Iff.rfl⟩
  | true =>
    rw [applyOne_admissible hd]
    unfold store
    have hmodify : ∀ f, (r.modify d.path f).countedLen = r.countedLen ∧
        ∀ key, (r.modify d.path f).get? key = none ↔ r.get? key = none := by
      intro f
      refine ⟨by rw [countedLen, counted_modify, countedLen], fun key => ?_⟩
      rw [get?_modify]
      split <;> simp
    cases hvalue : d.value with
    | none =>
      cases hget : r.get? d.path with
      | none => exact ⟨rfl, fun _ => Iff.rfl⟩
      | some e => exact hmodify _
    | some v =>
      cases hget : r.get? d.path with
      | some e => exact hmodify _
      | none =>
        have hfull : maxKeys ≤ r.countedLen := by
          by_contra hroom
          exact h ⟨Nat.not_le.mp hroom, hd, hget, by rw [hvalue]; rfl⟩
        simp only
        rw [if_pos hfull]
        exact ⟨rfl, fun _ => Iff.rfl⟩

/-! ### A batch -/

/-- **What a batch makes of a held fact**: its own entries touch it, in
order. -/
theorem get?_update_held : ∀ (es : List DataEntry) {r : Registry} {e : Entry}, r.get? key = some e →
    (r.update es now).1.get? key = some ((batchAt key es).foldl (touch now) e)
  | [], _, _, he => he
  | d :: es, r, e, he => by
    show ((r.applyOne d now).1.update es now).1.get? key = _
    rw [get?_update_held es (get?_applyOne_held he d), batchAt_cons]
    by_cases hmine : (d.admissible && d.path = key) = true
    · rw [if_pos hmine, if_pos hmine, List.foldl_cons]
    · rw [if_neg hmine, if_neg hmine]

/-- The batch seats some key. -/
def Seats (r : Registry) (es : List DataEntry) : Prop := ∃ d ∈ es, r.seats d

theorem seats_applyOne {d d' : DataEntry} (h : ¬ r.seats d) : (r.applyOne d now).1.seats d' ↔ r.seats d' := by
  obtain ⟨hlen, hnone⟩ := @applyOne_quiet r now d h
  unfold seats
  rw [hlen, hnone]

theorem update_quiet : ∀ (es : List DataEntry) {r : Registry}, ¬ r.Seats es → ∀ key, r.get? key = none →
    (r.update es now).1.get? key = none
  | [], _, _, _, hfree => hfree
  | d :: es, r, h, key, hfree => by
    have hd : ¬ r.seats d := fun hs => h ⟨d, List.mem_cons_self, hs⟩
    have hrest : ¬ (r.applyOne d now).1.Seats es := by
      rintro ⟨d', hd', hs⟩
      exact h ⟨d', List.mem_cons_of_mem _ hd', (seats_applyOne hd).mp hs⟩
    exact update_quiet es hrest key (((applyOne_quiet hd).2 key).mpr hfree)

theorem update_seats : ∀ (es : List DataEntry) {r : Registry}, r.Seats es → ∃ key, r.get? key = none ∧
    (r.update es now).1.get? key ≠ none
  | [], _, ⟨_, hd, _⟩ => nomatch hd
  | d :: es, r, ⟨d', hd', hs⟩ => by
    by_cases hd : r.seats d
    · refine ⟨d.path, hd.2.2.1, ?_⟩
      obtain ⟨e, he⟩ := Option.ne_none_iff_exists'.mp (@applyOne_seats r now d hd)
      show ((r.applyOne d now).1.update es now).1.get? d.path ≠ none
      rw [get?_update_held es he]
      simp
    · have hmem : d' ∈ es := (List.mem_cons.mp hd').resolve_left fun heq => hd (heq ▸ hs)
      obtain ⟨key, hfree, hheld⟩ := update_seats es (r := (r.applyOne d now).1) ⟨d', hmem, (seats_applyOne hd).mpr hs⟩
      exact ⟨key, ((applyOne_quiet hd).2 key).mp hfree, hheld⟩

/-! ### Where a fold over touches ends -/

/-- The last given, or what was there. -/
def lastGiven {α : Type} (given : DataEntry → Option α) (start : α) (ds : List DataEntry) : α :=
  ds.foldl (fun a d => (given d).getD a) start

theorem touch_value (e : Entry) (d : DataEntry) : (touch now e d).value = d.value.getD e.value := by
  unfold touch restated confirmed
  cases d.value with
  | none => rfl
  | some v =>
    dsimp only [Option.getD_some]
    split
    · rfl
    · rename_i hv
      exact not_not.mp hv

theorem touch_ttlSecs (e : Entry) (d : DataEntry) : (touch now e d).ttlSecs = (ttlSecsOf d.ttl).getD e.ttlSecs := by
  unfold touch restated confirmed
  cases d.value with
  | none => rfl
  | some v =>
    dsimp only
    split <;> rfl

theorem touch_validatedAt (e : Entry) (d : DataEntry) : (touch now e d).validatedAt = now := by
  unfold touch restated confirmed
  cases d.value <;> rfl

theorem touch_createdAt (e : Entry) (d : DataEntry) :
    (touch now e d).createdAt = if ∀ v ∈ d.value, v = e.value then e.createdAt else now := by
  unfold touch restated confirmed
  cases d.value with
  | none => simp
  | some v =>
    by_cases hv : e.value = v
    · simp [hv]
    · have hv' : ¬ v = e.value := fun h => hv h.symm
      simp [hv, hv']

theorem foldl_touch_value : ∀ (ds : List DataEntry) (e : Entry),
    (ds.foldl (touch now) e).value = lastGiven DataEntry.value e.value ds
  | [], _ => rfl
  | d :: ds, e => by
    rw [List.foldl_cons, foldl_touch_value ds, touch_value]
    rfl

theorem foldl_touch_ttlSecs : ∀ (ds : List DataEntry) (e : Entry),
    (ds.foldl (touch now) e).ttlSecs = lastGiven (fun d => ttlSecsOf d.ttl) e.ttlSecs ds
  | [], _ => rfl
  | d :: ds, e => by
    rw [List.foldl_cons, foldl_touch_ttlSecs ds, touch_ttlSecs]
    rfl

theorem foldl_touch_validatedAt : ∀ {ds : List DataEntry} (e : Entry), ds ≠ [] →
    (ds.foldl (touch now) e).validatedAt = now
  | [], _, h => absurd rfl h
  | [d], e, _ => touch_validatedAt e d
  | d :: d' :: ds, e, _ => @foldl_touch_validatedAt (d' :: ds) (touch now e d) (by simp)

/-- A value given that is not the one held comes into force now. -/
theorem foldl_touch_createdAt : ∀ (ds : List DataEntry) (e : Entry), (ds.foldl (touch now) e).createdAt =
    if ∀ d ∈ ds, ∀ v ∈ d.value, v = e.value then e.createdAt else now
  | [], _ => by simp
  | d :: ds, e => by
    rw [List.foldl_cons, foldl_touch_createdAt ds, touch_createdAt, touch_value]
    by_cases hd : ∀ v ∈ d.value, v = e.value
    · have hsame : d.value.getD e.value = e.value := by
        cases hv : d.value with
        | none => rfl
        | some v => exact hd v hv
      have hrest : (∀ d' ∈ d :: ds, ∀ v ∈ d'.value, v = e.value) ↔ ∀ d' ∈ ds, ∀ v ∈ d'.value, v = e.value := by
        rw [List.forall_mem_cons]
        exact and_iff_right hd
      rw [if_pos hd, hsame]
      exact (if_congr hrest rfl rfl).symm
    · rw [if_neg hd, ite_self, if_neg fun h => hd (List.forall_mem_cons.mp h).1]

/-- The entries for a key leave the fact it holds: confirmed at this very
reading, its lifetime and value the last ones given, and its value in force
since this reading or never another. -/
structure SettledAt (now : ℤ) (e : Entry) (ds : List DataEntry) : Prop where
  validated : e.validatedAt = now
  lifetime : lastGiven (fun d => ttlSecsOf d.ttl) e.ttlSecs ds = e.ttlSecs
  value : lastGiven DataEntry.value e.value ds = e.value
  created : e.createdAt = now ∨ ∀ d ∈ ds, ∀ v ∈ d.value, v = e.value

theorem foldl_touch_eq_self_iff {ds : List DataEntry} {e : Entry} :
    ds.foldl (touch now) e = e ↔ ds = [] ∨ SettledAt now e ds := by
  rcases eq_or_ne ds [] with rfl | hne
  · simp
  have hcreated := @foldl_touch_createdAt now ds e
  have hvalue := @foldl_touch_value now ds e
  have hlife := @foldl_touch_ttlSecs now ds e
  have hvalidated := @foldl_touch_validatedAt now ds e hne
  constructor
  · intro h
    rw [h] at hcreated hvalue hlife hvalidated
    refine .inr ⟨hvalidated, hlife.symm, hvalue.symm, ?_⟩
    by_cases hall : ∀ d ∈ ds, ∀ v ∈ d.value, v = e.value
    · exact .inr hall
    · rw [if_neg hall] at hcreated
      exact .inl hcreated
  · rintro (hnil | h)
    · exact absurd hnil hne
    have hsame : (if ∀ d ∈ ds, ∀ v ∈ d.value, v = e.value then e.createdAt else now) = e.createdAt := by
      rcases h.created with hnow | hall
      · rw [hnow, ite_self]
      · rw [if_pos hall]
    calc ds.foldl (touch now) e
        = ⟨(ds.foldl (touch now) e).value, (ds.foldl (touch now) e).createdAt, (ds.foldl (touch now) e).validatedAt,
            (ds.foldl (touch now) e).ttlSecs⟩ := rfl
      _ = ⟨e.value, e.createdAt, e.validatedAt, e.ttlSecs⟩ := by
          rw [hvalue, hcreated, hvalidated, hlife, hsame, h.value, h.lifetime, h.validated]
      _ = e := rfl

/-! ### The registry as a whole -/

/-- The batch seats nothing, and leaves every fact it names. -/
def Unmoved (r : Registry) (es : List DataEntry) (now : ℤ) : Prop :=
  ¬ r.Seats es ∧ ∀ key e, r.get? key = some e → batchAt key es = [] ∨ SettledAt now e (batchAt key es)

/-- **A batch changes nothing exactly when** it seats nothing and settles every
fact it names. -/
theorem update_unmoved_iff (r : Registry) (es : List DataEntry) (now : ℤ) :
    (∀ key, (r.update es now).1.get? key = r.get? key) ↔ r.Unmoved es now := by
  constructor
  · intro h
    refine ⟨fun hs => ?_, fun key e he => ?_⟩
    · obtain ⟨key, hfree, hheld⟩ := @update_seats now es r hs
      exact hheld ((h key).trans hfree)
    · have hkey := h key
      rw [get?_update_held es he, he, Option.some.injEq] at hkey
      exact foldl_touch_eq_self_iff.mp hkey
  · rintro ⟨hquiet, hsettled⟩ key
    cases hget : r.get? key with
    | none => exact update_quiet es hquiet key hget
    | some e => rw [get?_update_held es hget, foldl_touch_eq_self_iff.mpr (hsettled key e hget)]

end Registry
end DomainData
end Logmon
