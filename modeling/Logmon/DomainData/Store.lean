/-
# A domain's registry

`domain_data/store.rs` and `domain_data/entry.rs`: facts by key, each with the
instant its value came into force and the instant it was last confirmed.
Agents write through `update` and `remove`, the daemon writes the reserved keys
through `setReserved`, and a loaded case puts its facts back with `restore`.

Over every run from the empty registry the keys are well formed, those of the
agents bounded and those of the daemon untouched by agents (`registry_rules`).
A confirmation stamps the clock's reading whatever it is, so a fact's
validation is younger than its value only while no confirmation reads a clock
behind it (`validated_after_created`).

Key definitions: `Entry`, `Registry`, `Registry.applyOne`, `Registry.update`,
`Registry.remove`, `Registry.setReserved`, `Registry.restore`, `RegistryAct`.
Key theorems: `registry_rules`, `validated_after_created`.
-/
import Logmon.DomainData.Path
import Logmon.Lib.FMap
import Logmon.Lib.Reach
import Mathlib.Order.Lattice

namespace Logmon
namespace DomainData

open Lib

/-- One recorded belief: when this value came into force, and when someone last
confirmed it. -/
structure Entry where
  value : String
  createdAt : ℤ
  validatedAt : ℤ
  ttlSecs : Option ℕ
  deriving DecidableEq

def Entry.new (value : String) (now : ℤ) (ttlSecs : Option ℕ) : Entry := ⟨value, now, now, ttlSecs⟩

inductive TtlSpec
  | set (secs : ℕ)
  | clear
  deriving DecidableEq

/-- One requested change; what is absent is unchanged. -/
structure DataEntry where
  path : String
  value : Option String
  ttl : Option TtlSpec
  deriving DecidableEq

inductive UnknownCause
  | neverSet
  | noRegistry
  | undetermined
  deriving DecidableEq

inductive RejectReason
  | malformedPath
  | pathTooLong
  | malformedValue
  | valueTooLong
  | reservedPrefix
  | sigilNotAllowedHere
  | malformedTtl
  | registryFull
  deriving DecidableEq

inductive Outcome
  | created
  | updated
  | validated
  | scoped
  | unknown (cause : UnknownCause)
  | rejected (reason : RejectReason)
  deriving DecidableEq

structure DataOutcome where
  path : String
  outcome : Outcome
  deriving DecidableEq

structure RemoveOutcome where
  pattern : String
  removed : ℕ
  rejected : Option RejectReason
  deriving DecidableEq

/-- A domain's registry: the agents' keys and logmon's own. -/
structure Registry where
  entries : FMap String Entry
  sawQuarantine : Bool

/-- What a key that does not parse is rejected for. -/
def KeyError.reason : KeyError → RejectReason
  | .malformed => .malformedPath
  | .tooLong => .pathTooLong
  | .sigilNotAllowed => .sigilNotAllowedHere

namespace Registry

def new : Registry := ⟨∅, false⟩

def get? (r : Registry) (path : String) : Option Entry := r.entries.get? path

/-- The agents' keys. -/
def counted (r : Registry) : List String := (r.entries.entries.map Prod.fst).filter fun k => !isReserved k

def countedLen (r : Registry) : ℕ := r.counted.length

def unknownCause (r : Registry) : UnknownCause :=
  if r.entries.entries.isEmpty then (if r.sawQuarantine then .noRegistry else .undetermined) else .neverSet

/-- Confirm an entry, under a new lifetime if one is given. -/
def confirmed (now : ℤ) (ttlSecs : Option (Option ℕ)) (e : Entry) : Entry :=
  { e with validatedAt := now, ttlSecs := ttlSecs.getD e.ttlSecs }

/-- Set an entry's value: a changed one comes into force now. -/
def restated (value : String) (now : ℤ) (ttlSecs : Option (Option ℕ)) (e : Entry) : Entry :=
  confirmed now ttlSecs (if e.value ≠ value then { e with value, createdAt := now } else e)

def modify (r : Registry) (key : String) (f : Entry → Entry) : Registry := { r with entries := r.entries.modify key f }

def insert (r : Registry) (key : String) (e : Entry) : Registry := { r with entries := r.entries.insert key e }

/-- What a request makes of a lifetime: nothing, or another one. -/
def ttlSecsOf : Option TtlSpec → Option (Option ℕ)
  | none => none
  | some .clear => some none
  | some (.set s) => some (some s)

/-- The change of one accepted key. -/
def store (r : Registry) (key : String) (value : Option String) (ttlSecs : Option (Option ℕ)) (now : ℤ) :
    Registry × Outcome :=
  match value, r.get? key with
  | none, some _ => (r.modify key (confirmed now ttlSecs), .validated)
  | none, none => (r, .unknown r.unknownCause)
  | some v, some existing =>
    (r.modify key (restated v now ttlSecs), if existing.value ≠ v then .updated else .validated)
  | some v, none =>
    if maxKeys ≤ r.countedLen then (r, .rejected .registryFull)
    else (r.insert key (.new v now ttlSecs.join), .created)

def applyOne (r : Registry) (e : DataEntry) (now : ℤ) : Registry × Outcome :=
  match Key.parse e.path false with
  | .error err => (r, .rejected err.reason)
  | .ok key =>
    if isReserved key.path then (r, .rejected .reservedPrefix)
    else if e.value.any fun v => maxValueBytes < v.utf8ByteSize then (r, .rejected .valueTooLong)
    else r.store key.rendered e.value (ttlSecsOf e.ttl) now

/-- Apply a batch, in the order given. -/
def update (r : Registry) : List DataEntry → ℤ → Registry × List DataOutcome
  | [], _ => (r, [])
  | e :: es, now =>
    let (r1, outcome) := r.applyOne e now
    let (r2, outcomes) := r1.update es now
    (r2, ⟨e.path, outcome⟩ :: outcomes)

/-- Remove by one prefix pattern. -/
def removeOne (r : Registry) (pattern : String) : Registry × RemoveOutcome :=
  match Key.parse pattern false with
  | .error err => (r, ⟨pattern, 0, some err.reason⟩)
  | .ok k =>
    if isReserved k.path then (r, ⟨pattern, 0, some .reservedPrefix⟩)
    else
      let doomed := (r.entries.entries.map Prod.fst).filter fun stored => matchesPrefix k.rendered stored
      ({ r with entries := doomed.foldl FMap.erase r.entries }, ⟨pattern, doomed.length, none⟩)

/-- Remove by prefix patterns, in the order given. -/
def remove (r : Registry) : List String → Registry × List RemoveOutcome
  | [] => (r, [])
  | pattern :: patterns =>
    let (r1, outcome) := r.removeOne pattern
    let (r2, outcomes) := r1.remove patterns
    (r2, outcome :: outcomes)

/-- Put a fact back as it was captured, its validation no older than its value. -/
def restore (r : Registry) (path value : String) (createdAt validatedAt : ℤ) (ttlSecs : Option ℕ) : Registry :=
  if isReserved path then r else r.insert path ⟨value, createdAt, max validatedAt createdAt, ttlSecs⟩

/-- The daemon's own keys. -/
def setReserved (r : Registry) (path value : String) (now : ℤ) : Registry × Option Outcome :=
  if !isReserved path then (r, none)
  else match r.get? path with
    | some existing =>
      (r.modify path (restated value now none), some (if existing.value ≠ value then .updated else .validated))
    | none => (r.insert path (.new value now none), some .created)

/-! ### What one call does -/

variable {r : Registry}

/-- **What one entry of a batch can do**: nothing, refused or unknown; or
confirm or restate what its key holds; or seat a new key, while there is
room. -/
theorem applyOne_cases (r : Registry) (e : DataEntry) (now : ℤ) :
    (∃ o, r.applyOne e now = (r, o) ∧ ((∃ cause, o = .unknown cause) ∨ ∃ reason, o = .rejected reason)) ∨
    (isReserved e.path = false ∧ IsKey e.path ∧
      ((∃ existing f o, r.get? e.path = some existing ∧ r.applyOne e now = (r.modify e.path f, o) ∧
          (o = .updated ∨ o = .validated) ∧
          (e.value = none ∧ f = confirmed now (ttlSecsOf e.ttl) ∨
            ∃ v, e.value = some v ∧ f = restated v now (ttlSecsOf e.ttl))) ∨
        (∃ v, e.value = some v ∧ r.get? e.path = none ∧ r.countedLen < maxKeys ∧
          r.applyOne e now = (r.insert e.path (.new v now (ttlSecsOf e.ttl).join), .created)))) := by
  unfold applyOne
  cases hparse : Key.parse e.path false with
  | error err => exact .inl ⟨_, rfl, .inr ⟨_, rfl⟩⟩
  | ok key =>
    obtain ⟨hrendered, hkey⟩ := isKey_of_parse hparse
    have hpath : key.path = e.path := by rw [(Key.parse_unscoped hparse).1]
    simp only
    by_cases hres : isReserved key.path = true
    · rw [if_pos hres]
      exact .inl ⟨_, rfl, .inr ⟨_, rfl⟩⟩
    rw [if_neg hres]
    by_cases hlong : (e.value.any fun v => decide (maxValueBytes < v.utf8ByteSize)) = true
    · rw [if_pos hlong]
      exact .inl ⟨_, rfl, .inr ⟨_, rfl⟩⟩
    rw [if_neg hlong, hrendered]
    have hagent : isReserved e.path = false := by
      rw [← hpath]
      simpa using hres
    unfold store
    cases hvalue : e.value with
    | none =>
      cases hget : r.get? e.path with
      | none => exact .inl ⟨_, rfl, .inl ⟨_, rfl⟩⟩
      | some existing => exact .inr ⟨hagent, hkey, .inl ⟨existing, _, _, rfl, rfl, .inr rfl, by simp⟩⟩
    | some v =>
      cases hget : r.get? e.path with
      | none =>
        simp only
        by_cases hfull : maxKeys ≤ r.countedLen
        · rw [if_pos hfull]
          exact .inl ⟨_, rfl, .inr ⟨_, rfl⟩⟩
        · rw [if_neg hfull]
          exact .inr ⟨hagent, hkey, .inr ⟨v, rfl, trivial, Nat.not_le.mp hfull, rfl⟩⟩
      | some existing =>
        refine .inr ⟨hagent, hkey, .inl ⟨existing, _, _, rfl, rfl, ?_, .inr ⟨v, rfl, rfl⟩⟩⟩
        by_cases hv : existing.value ≠ v
        · exact .inl (if_pos hv)
        · exact .inr (if_neg hv)

theorem get?_modify (key k : String) (f : Entry → Entry) :
    (r.modify key f).get? k = if k = key then (r.get? k).map f else r.get? k := FMap.get?_modify _ _ _ _

theorem get?_insert (key k : String) (e : Entry) : (r.insert key e).get? k = if k = key then some e else r.get? k :=
  FMap.get?_insert _ _ _ _

theorem counted_modify (key : String) (f : Entry → Entry) : (r.modify key f).counted = r.counted := by
  unfold counted modify
  rw [FMap.keys_modify]

/-- An insertion adds its own key at most. -/
theorem countedLen_insert (key : String) (e : Entry) :
    (r.insert key e).countedLen ≤ r.countedLen + if isReserved key then 0 else 1 := by
  have hrest : ((((r.entries.erase key).entries.map Prod.fst).filter fun k => !isReserved k).length) ≤ r.countedLen :=
    ((List.filter_sublist.map Prod.fst).filter _).length_le
  show (((key :: (r.entries.erase key).entries.map Prod.fst).filter fun k => !isReserved k).length) ≤ _
  cases hres : isReserved key with
  | true =>
    rw [List.filter_cons_of_neg (by simp [hres])]
    exact hrest
  | false =>
    rw [List.filter_cons_of_pos (by simp [hres]), List.length_cons]
    exact Nat.succ_le_succ hrest

theorem get?_foldl_erase (ks : List String) (m : FMap String Entry) (k : String) :
    (ks.foldl FMap.erase m).get? k = if k ∈ ks then none else m.get? k := by
  induction ks generalizing m with
  | nil => simp
  | cons a ks ih =>
    rw [List.foldl_cons, ih, FMap.get?_erase]
    by_cases hk : k ∈ ks
    · simp [hk]
    · by_cases ha : k = a
      · simp [ha]
      · simp [hk, ha]

theorem foldl_erase_sublist (ks : List String) (m : FMap String Entry) :
    (ks.foldl FMap.erase m).entries.Sublist m.entries := by
  induction ks generalizing m with
  | nil => exact List.Sublist.refl _
  | cons a ks ih => exact (ih _).trans List.filter_sublist

/-- **What one pattern can do**: nothing, refused; or take away keys, none of
them reserved. -/
theorem removeOne_cases (r : Registry) (pattern : String) :
    (∃ reason, r.removeOne pattern = (r, ⟨pattern, 0, some reason⟩)) ∨
    (∃ ks : List String, r.removeOne pattern = ({ r with entries := ks.foldl FMap.erase r.entries }, ⟨pattern, ks.length, none⟩) ∧
      ∀ k ∈ ks, isReserved k = false) := by
  unfold removeOne
  cases hparse : Key.parse pattern false with
  | error err => exact .inl ⟨_, rfl⟩
  | ok key =>
    simp only
    by_cases hres : isReserved key.path = true
    · rw [if_pos hres]
      exact .inl ⟨_, rfl⟩
    rw [if_neg hres]
    refine .inr ⟨_, rfl, fun k hk => ?_⟩
    have hm := (List.mem_filter.mp hk).2
    rw [(isKey_of_parse hparse).1] at hm
    obtain ⟨body, hbody⟩ := body_of_parse hparse
    rw [(Key.parse_unscoped hparse).1] at hres
    by_contra hk
    exact hres (isReserved_of_matchesPrefix hbody hm (by simpa using hk))

/-- Refused, or about a key nobody set. -/
def Outcome.refused : Outcome → Bool
  | .unknown _ | .rejected _ => true
  | _ => false

/-- A refused entry leaves the registry as it was. -/
theorem applyOne_refused {e : DataEntry} {now : ℤ} (h : Outcome.refused (r.applyOne e now).2 = true) :
    (r.applyOne e now).1 = r := by
  rcases r.applyOne_cases e now with ⟨o, ho, -⟩ | ⟨-, -, ⟨_, _, o, -, ho, hout, -⟩ | ⟨v, -, -, -, ho⟩⟩
  · rw [ho]
  · rw [ho] at h
    rcases hout with rfl | rfl <;> simp [Outcome.refused] at h
  · rw [ho] at h
    simp [Outcome.refused] at h

theorem applyOne_reserved (e : DataEntry) (now : ℤ) {key : String} (hkey : isReserved key = true) :
    (r.applyOne e now).1.get? key = r.get? key := by
  rcases r.applyOne_cases e now with ⟨o, ho, -⟩ | ⟨hagent, -, hdone⟩
  · rw [ho]
  · have hne : key ≠ e.path := by
      rintro rfl
      simp [hagent] at hkey
    rcases hdone with ⟨_, f, o, -, ho, -⟩ | ⟨v, -, -, -, ho⟩
    · rw [ho, get?_modify, if_neg hne]
    · rw [ho, get?_insert, if_neg hne]

theorem removeOne_reserved (pattern : String) {key : String} (hkey : isReserved key = true) :
    (r.removeOne pattern).1.get? key = r.get? key := by
  rcases r.removeOne_cases pattern with ⟨reason, ho⟩ | ⟨ks, ho, hks⟩
  · rw [ho]
  · rw [ho]
    show (ks.foldl FMap.erase r.entries).get? key = r.get? key
    rw [get?_foldl_erase, if_neg]
    · rfl
    · intro hmem
      simp [hks key hmem] at hkey

/-! ### Batches -/

theorem update_append (es fs : List DataEntry) (now : ℤ) : ∀ r : Registry, r.update (es ++ fs) now =
    (((r.update es now).1.update fs now).1, (r.update es now).2 ++ ((r.update es now).1.update fs now).2) := by
  induction es with
  | nil => exact fun r => rfl
  | cons e es ih =>
    intro r
    simp only [List.cons_append, update, ih]

theorem remove_append (ps qs : List String) : ∀ r : Registry, r.remove (ps ++ qs) =
    (((r.remove ps).1.remove qs).1, (r.remove ps).2 ++ ((r.remove ps).1.remove qs).2) := by
  induction ps with
  | nil => exact fun r => rfl
  | cons p ps ih =>
    intro r
    simp only [List.cons_append, remove, ih]

theorem update_paths (es : List DataEntry) (now : ℤ) : ∀ r : Registry,
    (r.update es now).2.map DataOutcome.path = es.map DataEntry.path := by
  induction es with
  | nil => exact fun r => rfl
  | cons e es ih =>
    intro r
    simp only [update, List.map_cons, ih]

theorem removeOne_pattern (pattern : String) : (r.removeOne pattern).2.pattern = pattern := by
  rcases r.removeOne_cases pattern with ⟨reason, ho⟩ | ⟨ks, ho, -⟩ <;> rw [ho]

theorem remove_patterns (ps : List String) : ∀ r : Registry, (r.remove ps).2.map RemoveOutcome.pattern = ps := by
  induction ps with
  | nil => exact fun r => rfl
  | cons p ps ih =>
    intro r
    simp only [remove, List.map_cons, ih, removeOne_pattern]

theorem update_reserved (es : List DataEntry) (now : ℤ) {key : String} (hkey : isReserved key = true) :
    ∀ r : Registry, (r.update es now).1.get? key = r.get? key := by
  induction es with
  | nil => exact fun r => rfl
  | cons e es ih =>
    intro r
    show ((r.applyOne e now).1.update es now).1.get? key = _
    rw [ih, applyOne_reserved e now hkey]

theorem remove_reserved (ps : List String) {key : String} (hkey : isReserved key = true) :
    ∀ r : Registry, (r.remove ps).1.get? key = r.get? key := by
  induction ps with
  | nil => exact fun r => rfl
  | cons p ps ih =>
    intro r
    show ((r.removeOne p).1.remove ps).1.get? key = _
    rw [ih, removeOne_reserved p hkey]

/-- A batch without a refused entry of it ends the same. -/
theorem update_refused {before after : List DataEntry} {e : DataEntry} {now : ℤ} {o : DataOutcome}
    (ho : (r.update (before ++ e :: after) now).2[before.length]? = some o) (hrefused : Outcome.refused o.outcome = true) :
    (r.update (before ++ e :: after) now).1 = (r.update (before ++ after) now).1 := by
  have hlen : (r.update before now).2.length = before.length := by
    simpa using congrArg List.length (update_paths before now r)
  rw [update_append] at ho
  rw [update_append, update_append]
  simp only at ho ⊢
  rw [List.getElem?_append_right (by omega), hlen, Nat.sub_self] at ho
  have hfirst : ⟨e.path, ((r.update before now).1.applyOne e now).2⟩ = o := Option.some.inj ho
  have hsame := @applyOne_refused (r.update before now).1 e now (by rw [← hfirst] at hrefused; exact hrefused)
  show (((r.update before now).1.applyOne e now).1.update after now).1 = _
  rw [hsame]

/-- And one without a refused pattern. -/
theorem remove_refused {before after : List String} {p : String} {o : RemoveOutcome}
    (ho : (r.remove (before ++ p :: after)).2[before.length]? = some o) (hrefused : o.rejected.isSome = true) :
    (r.remove (before ++ p :: after)).1 = (r.remove (before ++ after)).1 := by
  have hlen : (r.remove before).2.length = before.length := by
    simpa using congrArg List.length (remove_patterns before r)
  rw [remove_append] at ho
  rw [remove_append, remove_append]
  simp only at ho ⊢
  rw [List.getElem?_append_right (by omega), hlen, Nat.sub_self] at ho
  have hfirst : ((r.remove before).1.removeOne p).2 = o := Option.some.inj ho
  have hsame : ((r.remove before).1.removeOne p).1 = (r.remove before).1 := by
    rcases (r.remove before).1.removeOne_cases p with ⟨reason, hp⟩ | ⟨ks, hp, -⟩
    · rw [hp]
    · rw [hp] at hfirst
      rw [← hfirst] at hrefused
      simp at hrefused
  show (((r.remove before).1.removeOne p).1.remove after).1 = _
  rw [hsame]

/-! ### Runs -/

end Registry

/-- One call on a registry. -/
inductive RegistryAct
  | update (entries : List DataEntry) (now : ℤ)
  | remove (patterns : List String)
  | setReserved (path value : String) (now : ℤ)
  | restore (path value : String) (createdAt validatedAt : ℤ) (ttlSecs : Option ℕ)

namespace Registry

def step (r : Registry) : RegistryAct → Option Registry
  | .update es now => some (r.update es now).1
  | .remove ps => some (r.remove ps).1
  | .setReserved path value now => some (r.setReserved path value now).1
  | .restore path value created validated ttl => some (r.restore path value created validated ttl)

/-- The calls on a live domain: the daemon chooses valid keys, and nothing is
restored. -/
def live (_ : Registry) : RegistryAct → Prop
  | .setReserved path _ _ => IsKey path
  | .restore .. => False
  | _ => True

/-- Every key is one, and the agents' keys are within their bound. -/
structure Ruled (r : Registry) : Prop where
  counted_le : r.countedLen ≤ maxKeys
  keys : ∀ key, (r.get? key).isSome → IsKey key

theorem ruled_new : new.Ruled := ⟨Nat.zero_le _, fun _ h => absurd h (by simp [new, get?])⟩

variable {r : Registry}

theorem Ruled.modify (h : r.Ruled) (key : String) (f : Entry → Entry) : (r.modify key f).Ruled := by
  refine ⟨?_, fun k hk => ?_⟩
  · unfold countedLen
    rw [counted_modify]
    exact h.counted_le
  · rw [get?_modify] at hk
    split_ifs at hk
    · exact h.keys k (by simpa using hk)
    · exact h.keys k hk

theorem Ruled.insert (h : r.Ruled) {key : String} (hkey : IsKey key) (e : Entry)
    (hroom : isReserved key = true ∨ r.countedLen < maxKeys) : (r.insert key e).Ruled := by
  refine ⟨?_, fun k hk => ?_⟩
  · have hle := @countedLen_insert r key e
    have := h.counted_le
    rcases hroom with hres | hlt
    · rw [if_pos hres] at hle
      omega
    · split_ifs at hle <;> omega
  · rw [get?_insert] at hk
    split_ifs at hk with hk'
    · rw [hk']
      exact hkey
    · exact h.keys k hk

theorem Ruled.applyOne (h : r.Ruled) (e : DataEntry) (now : ℤ) : (r.applyOne e now).1.Ruled := by
  rcases r.applyOne_cases e now with ⟨o, ho, -⟩ | ⟨-, hkey, ⟨_, f, o, -, ho, -⟩ | ⟨v, -, -, hroom, ho⟩⟩
  · rw [ho]
    exact h
  · rw [ho]
    exact h.modify _ _
  · rw [ho]
    exact h.insert hkey _ (.inr hroom)

theorem Ruled.removeOne (h : r.Ruled) (pattern : String) : (r.removeOne pattern).1.Ruled := by
  rcases r.removeOne_cases pattern with ⟨reason, ho⟩ | ⟨ks, ho, -⟩
  · rw [ho]
    exact h
  · rw [ho]
    refine ⟨le_trans ?_ h.counted_le, fun k hk => h.keys k ?_⟩
    · exact (((foldl_erase_sublist ks r.entries).map Prod.fst).filter _).length_le
    · have hget : (ks.foldl FMap.erase r.entries).get? k = if k ∈ ks then none else r.entries.get? k :=
        get?_foldl_erase ks r.entries k
      have hk' : ((ks.foldl FMap.erase r.entries).get? k).isSome = true := hk
      rw [hget] at hk'
      split_ifs at hk'
      · simp at hk'
      · exact hk'

theorem Ruled.update (es : List DataEntry) (now : ℤ) : ∀ {r : Registry}, r.Ruled → (r.update es now).1.Ruled := by
  induction es with
  | nil => exact fun h => h
  | cons e es ih => exact fun h => ih (h.applyOne e now)

theorem Ruled.remove (ps : List String) : ∀ {r : Registry}, r.Ruled → (r.remove ps).1.Ruled := by
  induction ps with
  | nil => exact fun h => h
  | cons p ps ih => exact fun h => ih (h.removeOne p)

theorem Ruled.setReserved (h : r.Ruled) {path : String} (hkey : IsKey path) (value : String) (now : ℤ) :
    (r.setReserved path value now).1.Ruled := by
  unfold Registry.setReserved
  by_cases hres : isReserved path = true
  · simp only [hres, Bool.not_true, Bool.false_eq_true, if_false]
    cases r.get? path with
    | none => exact h.insert hkey _ (.inl hres)
    | some existing => exact h.modify _ _
  · rw [if_pos (by simpa using hres)]
    exact h

theorem Ruled.step {a : RegistryAct} {r' : Registry} (h : r.Ruled) (hlive : r.live a) (hstep : r.step a = some r') :
    r'.Ruled := by
  cases a with
  | update es now =>
    obtain rfl := Option.some.inj hstep
    exact h.update es now
  | remove ps =>
    obtain rfl := Option.some.inj hstep
    exact h.remove ps
  | setReserved path value now =>
    obtain rfl := Option.some.inj hstep
    exact h.setReserved hlive value now
  | restore => exact absurd hlive id

/-- **The registry's rules hold in every state a live domain's calls reach.** -/
theorem registry_rules {r : Registry} (h : Reach step live new r) :
    r.countedLen ≤ maxKeys ∧ (∀ key, (r.get? key).isSome → IsKey key) ∧
    (∀ key, isReserved key = true →
      (∀ es now, (r.update es now).1.get? key = r.get? key) ∧ ∀ ps, (r.remove ps).1.get? key = r.get? key) ∧
    (∀ es now, (r.update es now).2.map DataOutcome.path = es.map DataEntry.path) ∧
    (∀ ps, (r.remove ps).2.map RemoveOutcome.pattern = ps) ∧
    (∀ before e after now o, (r.update (before ++ e :: after) now).2[before.length]? = some o →
      Outcome.refused o.outcome = true →
      (r.update (before ++ e :: after) now).1 = (r.update (before ++ after) now).1) ∧
    (∀ before p after o, (r.remove (before ++ p :: after)).2[before.length]? = some o → o.rejected.isSome = true →
      (r.remove (before ++ p :: after)).1 = (r.remove (before ++ after)).1) := by
  have hruled : r.Ruled := h.invariant ruled_new fun _ _ _ hr hlive hstep => hr.step hlive hstep
  refine ⟨hruled.counted_le, hruled.keys, fun key hkey => ⟨fun es now => ?_, fun ps => ?_⟩, fun es now => ?_,
    fun ps => ?_, fun _ _ _ _ _ ho hrefused => ?_, fun _ _ _ _ ho hrefused => ?_⟩
  · exact update_reserved es now hkey r
  · exact remove_reserved ps hkey r
  · exact update_paths es now r
  · exact remove_patterns ps r
  · exact update_refused ho hrefused
  · exact remove_refused ho hrefused

/-- A registry with a key of each kind. -/
def sample : Registry :=
  ((new.setReserved "/logmon/incarnation" "1" 0).1.update [⟨"/Build/commit", some "a1", none⟩] 5).1

theorem sample_reached : Reach step live new sample :=
  .next (a := .update [⟨"/Build/commit", some "a1", none⟩] 5)
    (.next (a := .setReserved "/logmon/incarnation" "1" 0) .start ⟨⟨"/logmon/incarnation", false⟩, by decide⟩ rfl)
    trivial rfl

/-- On that registry: its keys are counted as they should be, and removing every
key of the agents leaves the daemon's. -/
theorem sample_rules : sample.countedLen = 1 ∧ sample.countedLen ≤ maxKeys ∧
    (sample.remove ["/Build", "/logmon"]).1.get? "/logmon/incarnation" = sample.get? "/logmon/incarnation" :=
  ⟨by decide, (registry_rules sample_reached).1,
    ((registry_rules sample_reached).2.2.1 "/logmon/incarnation" (by decide)).2 ["/Build", "/logmon"]⟩

/-! ### Validation and value -/

/-- No validation is older than its value. -/
def Timely (r : Registry) : Prop := ∀ key e, r.get? key = some e → e.createdAt ≤ e.validatedAt

/-- A value that a call restates or leaves open is no younger than the clock
reads. -/
def clockHolds (r : Registry) (key : String) (value : Option String) (now : ℤ) : Prop :=
  ∀ e, r.get? key = some e → (∀ v ∈ value, v = e.value) → e.createdAt ≤ now

/-- The clock holds for every entry of a batch, where it is applied. -/
def clockHoldsAll : Registry → List DataEntry → ℤ → Prop
  | _, [], _ => True
  | r, e :: es, now => (isReserved e.path = false → r.clockHolds e.path e.value now) ∧
    clockHoldsAll (r.applyOne e now).1 es now

/-- The call confirms nothing at a clock reading behind its value. -/
def clockSteady (r : Registry) : RegistryAct → Prop
  | .update es now => r.clockHoldsAll es now
  | .setReserved path value now => r.clockHolds path (some value) now
  | _ => True

theorem Timely.modify (h : r.Timely) (key : String) (f : Entry → Entry)
    (hf : ∀ e, r.get? key = some e → (f e).createdAt ≤ (f e).validatedAt) : (r.modify key f).Timely := by
  intro k e he
  rw [get?_modify] at he
  split_ifs at he with hk
  · obtain ⟨e0, he0, rfl⟩ := Option.map_eq_some_iff.mp he
    exact hf e0 (hk ▸ he0)
  · exact h k e he

theorem Timely.insert (h : r.Timely) (key : String) {e : Entry} (he : e.createdAt ≤ e.validatedAt) :
    (r.insert key e).Timely := by
  intro k e' he'
  rw [get?_insert] at he'
  split_ifs at he'
  · rw [← Option.some.inj he']
    exact he
  · exact h k e' he'

/-- A restated value comes into force now, or was in force already. -/
theorem restated_timely {e : Entry} {value : String} {now : ℤ} (ttl : Option (Option ℕ))
    (h : value = e.value → e.createdAt ≤ now) :
    (restated value now ttl e).createdAt ≤ (restated value now ttl e).validatedAt := by
  unfold restated confirmed
  by_cases hv : e.value ≠ value
  · rw [if_pos hv]
  · rw [if_neg hv]
    exact h (not_not.mp hv).symm

theorem Timely.applyOne (h : r.Timely) {e : DataEntry} {now : ℤ}
    (hclock : isReserved e.path = false → r.clockHolds e.path e.value now) : (r.applyOne e now).1.Timely := by
  rcases r.applyOne_cases e now with ⟨o, ho, -⟩ | ⟨hagent, -, ⟨existing, f, o, hget, ho, -, hf⟩ | ⟨v, -, -, -, ho⟩⟩
  · rw [ho]
    exact h
  · rw [ho]
    refine h.modify _ _ fun e0 he0 => ?_
    have hle := hclock hagent e0 he0
    rcases hf with ⟨hvalue, rfl⟩ | ⟨v, hvalue, rfl⟩
    · exact hle (by simp [hvalue])
    · exact restated_timely _ fun hv => hle (by simp [hvalue, hv])
  · rw [ho]
    exact h.insert _ (le_refl now)

theorem Timely.update {es : List DataEntry} {now : ℤ} : ∀ {r : Registry}, r.Timely → r.clockHoldsAll es now →
    (r.update es now).1.Timely := by
  induction es with
  | nil => exact fun h _ => h
  | cons e es ih => exact fun h hclock => ih (h.applyOne hclock.1) hclock.2

theorem Timely.removeOne (h : r.Timely) (pattern : String) : (r.removeOne pattern).1.Timely := by
  rcases r.removeOne_cases pattern with ⟨reason, ho⟩ | ⟨ks, ho, -⟩
  · rw [ho]
    exact h
  · rw [ho]
    intro k e he
    have hget : (ks.foldl FMap.erase r.entries).get? k = some e := he
    rw [get?_foldl_erase] at hget
    split_ifs at hget
    exact h k e hget

theorem Timely.remove (ps : List String) : ∀ {r : Registry}, r.Timely → (r.remove ps).1.Timely := by
  induction ps with
  | nil => exact fun h => h
  | cons p ps ih => exact fun h => ih (h.removeOne p)

theorem Timely.setReserved (h : r.Timely) {path value : String} {now : ℤ}
    (hclock : r.clockHolds path (some value) now) : (r.setReserved path value now).1.Timely := by
  unfold Registry.setReserved
  split
  · exact h
  · cases hget : r.get? path with
    | none => exact h.insert _ (le_refl now)
    | some existing =>
      refine h.modify _ _ fun e0 he0 => restated_timely _ fun hv => ?_
      exact hclock e0 he0 (by simp [hv])

theorem Timely.restore (h : r.Timely) (path value : String) (createdAt validatedAt : ℤ) (ttl : Option ℕ) :
    (r.restore path value createdAt validatedAt ttl).Timely := by
  unfold Registry.restore
  split
  · exact h
  · exact h.insert _ (le_max_right _ _)

/-- **While no confirmation reads a clock behind the value it confirms, no
validation is older than its value**, whatever a restored case carries. -/
theorem validated_after_created {r : Registry} (h : Reach step clockSteady new r) : r.Timely := by
  refine h.invariant (fun key e he => by simp [new, get?] at he) fun s a s' hs hclock hstep => ?_
  cases a with
  | update es now =>
    obtain rfl := Option.some.inj hstep
    exact hs.update hclock
  | remove ps =>
    obtain rfl := Option.some.inj hstep
    exact hs.remove ps
  | setReserved path value now =>
    obtain rfl := Option.some.inj hstep
    exact hs.setReserved hclock
  | restore path value created validated ttl =>
    obtain rfl := Option.some.inj hstep
    exact hs.restore path value created validated ttl

/-- A fact confirmed later than it was set, and again at the same reading. -/
theorem confirmed_after_created : ∃ e, (sample.update [⟨"/Build/commit", none, none⟩] 7).1.get? "/Build/commit" = some e ∧
    e.createdAt = 5 ∧ e.createdAt ≤ e.validatedAt := by
  have hfirst : clockSteady new (.setReserved "/logmon/incarnation" "1" 0) := fun e he => nomatch he
  have hcommit : clockSteady (new.setReserved "/logmon/incarnation" "1" 0).1
      (.update [⟨"/Build/commit", some "a1", none⟩] 5) := by
    refine ⟨fun _ e he => ?_, trivial⟩
    have hnone : (new.setReserved "/logmon/incarnation" "1" 0).1.get? "/Build/commit" = none := by decide
    rw [hnone] at he
    exact nomatch he
  have hconfirm : clockSteady sample (.update [⟨"/Build/commit", none, none⟩] 7) := by
    refine ⟨fun _ e he => ?_, trivial⟩
    have hsome : sample.get? "/Build/commit" = some ⟨"a1", 5, 5, none⟩ := by decide
    rw [hsome] at he
    rw [← Option.some.inj he]
    decide
  refine ⟨⟨"a1", 5, 7, none⟩, by decide, rfl, ?_⟩
  exact validated_after_created (.next (.next (.next .start hfirst rfl) hcommit rfl) hconfirm rfl) "/Build/commit" _
    (by decide)

/-- A clock that steps back: set at 10, confirmed at 5. -/
theorem confirmed_before_created : ∃ r, Reach step (fun _ _ => True) new r ∧
    ∃ e, r.get? "/Action" = some e ∧ e.validatedAt < e.createdAt :=
  ⟨_, .next (a := .update [⟨"/Action", none, none⟩] 5)
      (.next (a := .update [⟨"/Action", some "deploy", none⟩] 10) .start trivial rfl) trivial rfl,
    ⟨"deploy", 10, 5, none⟩, by decide, by decide⟩

end Registry
end DomainData
end Logmon
