/-
# Opening a domain's registry

`domain_data/map.rs` and `stamp_boot` of `domain_data/persist.rs`: a registry
is read from its file when a call first looks at it, and stamped with logmon's
own keys. Whether the stamp can be saved changes nothing in memory.

So a call that only looks at a registry changes it, unless it was open or the
stamps are those it holds (`forDomain_untouched_iff`); a batch applied after
that never takes a stamp back (`update_untouched_iff`).

Key definitions: `stampBoot`, `Cell`, `Cell.forDomain`, `Cell.QuietToOpen`.
Key theorems: `stampBoot_quiet_iff`, `Cell.forDomain_untouched_iff`,
`Cell.update_untouched_iff`.
-/
import Logmon.DomainData.Batch

namespace Logmon
namespace DomainData

open Lib

/-- What opens a registry: the domain's name, the broker's version, and how a
time is written. -/
structure Boot where
  domain : String
  version : String
  toRfc3339 : ℤ → String

namespace Registry

/-- `stamp_boot`: a new registry also gets its era. -/
def stampBoot (b : Boot) (now : ℤ) (r : Registry) : Registry :=
  let isNew := r.entries.entries.isEmpty
  let r := (r.setReserved "/logmon/domain" b.domain now).1
  let r := (r.setReserved "/logmon/version" b.version now).1
  if isNew then
    let r := (r.setReserved "/logmon/first_seen" (b.toRfc3339 now) now).1
    let r := (r.setReserved "/logmon/incarnation" "1" now).1
    (r.setReserved "/logmon/incarnation_started" (b.toRfc3339 now) now).1
  else r

variable {r : Registry} {now : ℤ}

/-- What a reserved key holds once it is set. -/
def stamp (value : String) (now : ℤ) (old : Option Entry) : Entry :=
  (old.map (restated value now none)).getD (.new value now none)

theorem get?_setReserved {path : String} (h : isReserved path = true) (value : String) (now : ℤ) (k : String) :
    (r.setReserved path value now).1.get? k = if k = path then some (stamp value now (r.get? path)) else r.get? k := by
  unfold setReserved
  rw [h, Bool.not_true, if_neg Bool.false_ne_true]
  cases hget : r.get? path with
  | some e =>
    show (r.modify path _).get? k = _
    rw [get?_modify]
    by_cases hk : k = path
    · rw [if_pos hk, if_pos hk, hk, hget]
      rfl
    · rw [if_neg hk, if_neg hk]
  | none =>
    show (r.insert path _).get? k = _
    rw [get?_insert]
    rfl

/-- A stamp leaves what it finds: the same value, confirmed at this reading. -/
theorem stamp_eq_self_iff {value : String} {old : Option Entry} :
    some (stamp value now old) = old ↔ ∃ e, old = some e ∧ e.value = value ∧ e.validatedAt = now := by
  cases old with
  | none => simp
  | some e =>
    show some (restated value now none e) = some e ↔ _
    unfold restated confirmed
    constructor
    · intro h
      have heq := Option.some.inj h
      refine ⟨e, rfl, ?_, ?_⟩
      · by_contra hv
        have hvalue := congrArg Entry.value heq
        rw [if_pos hv] at hvalue
        exact hv hvalue.symm
      · exact (congrArg Entry.validatedAt heq).symm
    · rintro ⟨e', he, hv, hnow⟩
      obtain rfl := Option.some.inj he
      rw [if_neg (not_not.mpr hv), ← hnow]
      rfl

theorem stampBoot_domain (b : Boot) (now : ℤ) (r : Registry) :
    (r.stampBoot b now).get? "/logmon/domain" = some (stamp b.domain now (r.get? "/logmon/domain")) := by
  unfold stampBoot
  dsimp only
  split
  · rw [get?_setReserved (by decide), if_neg (by decide), get?_setReserved (by decide), if_neg (by decide),
      get?_setReserved (by decide), if_neg (by decide), get?_setReserved (by decide), if_neg (by decide),
      get?_setReserved (by decide), if_pos rfl]
  · rw [get?_setReserved (by decide), if_neg (by decide), get?_setReserved (by decide), if_pos rfl]

theorem stampBoot_version (b : Boot) (now : ℤ) (r : Registry) :
    (r.stampBoot b now).get? "/logmon/version" = some (stamp b.version now (r.get? "/logmon/version")) := by
  have hdomain : (r.setReserved "/logmon/domain" b.domain now).1.get? "/logmon/version" = r.get? "/logmon/version" := by
    rw [get?_setReserved (by decide), if_neg (by decide)]
  unfold stampBoot
  dsimp only
  split
  · rw [get?_setReserved (by decide), if_neg (by decide), get?_setReserved (by decide), if_neg (by decide),
      get?_setReserved (by decide), if_neg (by decide), get?_setReserved (by decide), if_pos rfl, hdomain]
  · rw [get?_setReserved (by decide), if_pos rfl, hdomain]

/-- Opening leaves the agents' facts. -/
theorem stampBoot_agent (b : Boot) (now : ℤ) (r : Registry) {key : String} (hkey : isReserved key = false) :
    (r.stampBoot b now).get? key = r.get? key := by
  have hset : ∀ (r : Registry) (path value : String), isReserved path = true →
      (r.setReserved path value now).1.get? key = r.get? key := by
    intro r path value hpath
    rw [get?_setReserved hpath, if_neg]
    rintro rfl
    simp [hkey] at hpath
  unfold stampBoot
  dsimp only
  split
  · rw [hset _ _ _ (by decide), hset _ _ _ (by decide), hset _ _ _ (by decide), hset _ _ _ (by decide),
      hset _ _ _ (by decide)]
  · rw [hset _ _ _ (by decide), hset _ _ _ (by decide)]

/-- The registry holds the stamps of this opening. -/
structure Stamped (b : Boot) (now : ℤ) (r : Registry) : Prop where
  domain : ∃ e, r.get? "/logmon/domain" = some e ∧ e.value = b.domain ∧ e.validatedAt = now
  version : ∃ e, r.get? "/logmon/version" = some e ∧ e.value = b.version ∧ e.validatedAt = now

/-- A registry that holds other stamps is changed under a reserved key. -/
theorem stampBoot_moves {b : Boot} (h : ¬ r.Stamped b now) :
    ∃ key, isReserved key = true ∧ (r.stampBoot b now).get? key ≠ r.get? key := by
  by_contra hnone
  have hsame : ∀ key, isReserved key = true → (r.stampBoot b now).get? key = r.get? key := fun key hkey => by
    by_contra hne
    exact hnone ⟨key, hkey, hne⟩
  refine h ⟨stamp_eq_self_iff.mp ?_, stamp_eq_self_iff.mp ?_⟩
  · rw [← stampBoot_domain, hsame _ (by decide)]
  · rw [← stampBoot_version, hsame _ (by decide)]

/-- **Opening changes nothing exactly when** the stamps are held. -/
theorem stampBoot_quiet_iff {b : Boot} : (∀ key, (r.stampBoot b now).get? key = r.get? key) ↔ r.Stamped b now := by
  constructor
  · intro h
    by_contra hno
    obtain ⟨key, -, hmoved⟩ := stampBoot_moves hno
    exact hmoved (h key)
  · rintro ⟨⟨e, he, hvalue, hnow⟩, hversion⟩ key
    have hheld : r.entries.entries.isEmpty = false := by
      have hmem : ("/logmon/domain", e) ∈ r.entries.entries := FMap.mem_iff.mpr he
      cases hentries : r.entries.entries with
      | nil => rw [hentries] at hmem; exact nomatch hmem
      | cons => rfl
    have hd := stamp_eq_self_iff.mpr ⟨e, he, hvalue, hnow⟩
    have hv := stamp_eq_self_iff.mpr hversion
    unfold stampBoot
    rw [hheld]
    have hfirst : ∀ k, (r.setReserved "/logmon/domain" b.domain now).1.get? k = r.get? k := by
      intro k
      rw [get?_setReserved (by decide), hd]
      split_ifs with hk
      · rw [hk]
      · rfl
    show ((r.setReserved "/logmon/domain" b.domain now).1.setReserved "/logmon/version" b.version now).1.get? key = _
    rw [get?_setReserved (by decide), hfirst, hfirst, hv]
    split_ifs with hk
    · rw [hk]
    · rfl

/-- Registries that hold the same facts have as many of the agents. -/
theorem countedLen_congr {r' : Registry} (h : ∀ key, r.get? key = r'.get? key) : r.countedLen = r'.countedLen := by
  refine (((List.perm_ext_iff_of_nodup r.entries.nodup r'.entries.nodup).mpr fun key => ?_).filter _).length_eq
  rw [FMap.mem_keys_iff, FMap.mem_keys_iff]
  exact iff_of_eq (congrArg (fun o : Option Entry => o.isSome = true) (h key))

theorem unmoved_congr {r' : Registry} (h : ∀ key, r.get? key = r'.get? key) (es : List DataEntry) :
    r.Unmoved es now ↔ r'.Unmoved es now := by
  unfold Unmoved Seats seats
  simp only [h, countedLen_congr h]

end Registry

/-- A domain's registry: open in memory, or still in its file. -/
inductive Cell
  | opened (r : Registry)
  | closed (stored : Registry)

namespace Cell

/-- What is recorded of the domain. -/
def held : Cell → Registry
  | .opened r => r
  | .closed stored => stored

/-- `for_domain`: get, or open, the registry. -/
def forDomain (b : Boot) (now : ℤ) : Cell → Registry
  | .opened r => r
  | .closed stored => stored.stampBoot b now

/-- The registry holds exactly what it held. -/
def Untouched (before after : Cell) : Prop := ∀ key, after.held.get? key = before.held.get? key

/-- Looking at the registry changes nothing. -/
def QuietToOpen (b : Boot) (now : ℤ) : Cell → Prop
  | .opened _ => True
  | .closed stored => stored.Stamped b now

variable {b : Boot} {now : ℤ}

theorem forDomain_untouched_iff (c : Cell) : c.Untouched (.opened (c.forDomain b now)) ↔ c.QuietToOpen b now := by
  cases c with
  | opened r => exact iff_of_true (fun _ => rfl) trivial
  | closed stored => exact Registry.stampBoot_quiet_iff

/-- **A batch after opening leaves the registry exactly when** opening does, and
the batch leaves what was recorded. -/
theorem update_untouched_iff (c : Cell) (es : List DataEntry) (later : ℤ) :
    c.Untouched (.opened ((c.forDomain b now).update es later).1) ↔
      c.QuietToOpen b now ∧ c.held.Unmoved es later := by
  have hquiet : c.Untouched (.opened ((c.forDomain b now).update es later).1) → c.QuietToOpen b now := by
    intro h
    cases c with
    | opened r => trivial
    | closed stored =>
      by_contra hno
      obtain ⟨key, hkey, hmoved⟩ := Registry.stampBoot_moves hno
      exact hmoved ((Registry.update_reserved es later hkey _).symm.trans (h key))
  have hiff : c.QuietToOpen b now →
      (c.Untouched (.opened ((c.forDomain b now).update es later).1) ↔ c.held.Unmoved es later) := by
    intro hq
    have hsame : ∀ key, (c.forDomain b now).get? key = c.held.get? key := (forDomain_untouched_iff c).mpr hq
    rw [← Registry.unmoved_congr hsame es, ← Registry.update_unmoved_iff]
    exact forall_congr' fun key => by rw [hsame key]; rfl
  exact ⟨fun h => ⟨hquiet h, (hiff (hquiet h)).mp h⟩, fun h => (hiff h.1).mpr h.2⟩

end Cell
end DomainData
end Logmon
