/-
# The registry a case carries

A capture copies a domain's registry into the case: the agents' facts, and the
era the seqs belong to. Every registry that calls on a live domain make is one a
case can carry (`carriable_of_reach`), the era a number. A load restores the
facts under their own times, a confirmation no older than its value, and states
the era again, as of the capture (`get?_loadedRegistry`).

Key definitions: `Registry.Carriable`, `daemonCall`, `restoredEntry`,
`loadedRegistry`.
Key theorems: `carriable_of_reach`, `restoreFacts_copy`,
`get?_loadedRegistry`.
-/
import Logmon.Cases.Create
import Logmon.Cases.Restore

namespace Logmon

open Lib

namespace DomainData.Registry

variable {r : Registry}

/-- What a case can carry of a registry: its keys within their bound, the
agents' values within theirs, and an incarnation that is not read as none. -/
structure Carriable (r : Registry) : Prop where
  ruled : r.Ruled
  values : ∀ key e, r.get? key = some e → isReserved key = false → e.value.utf8ByteSize ≤ maxValueBytes
  incarnation : ∀ e, r.get? "/logmon/incarnation" = some e → e.value ≠ "null"

/-- One entry of a batch puts no longer value in. -/
theorem values_applyOne (h : ∀ key e, r.get? key = some e → isReserved key = false → e.value.utf8ByteSize ≤ maxValueBytes)
    (d : DataEntry) (now : ℤ) : ∀ key e, (r.applyOne d now).1.get? key = some e → isReserved key = false →
      e.value.utf8ByteSize ≤ maxValueBytes := by
  by_cases hlong : ∃ v, d.value = some v ∧ maxValueBytes < v.utf8ByteSize
  · obtain ⟨v, hv, hlt⟩ := hlong
    rw [applyOne_of_long hv hlt]
    exact h
  have hfits : ∀ v, d.value = some v → v.utf8ByteSize ≤ maxValueBytes :=
    fun v hv => Nat.le_of_not_lt fun hlt => hlong ⟨v, hv, hlt⟩
  intro key e he hkey
  rcases r.applyOne_cases d now with ⟨o, ho, -⟩ | ⟨-, -, ⟨x, f, o, hx, ho, -, hf⟩ | ⟨v, hv, -, -, ho⟩⟩
  · rw [ho] at he
    exact h key e he hkey
  · rw [ho, get?_modify] at he
    split_ifs at he with hpath
    · obtain ⟨e0, he0, rfl⟩ := Option.map_eq_some_iff.mp he
      have hold := h key e0 he0 hkey
      rcases hf with ⟨-, rfl⟩ | ⟨v, hv, rfl⟩
      · exact hold
      · unfold restated confirmed
        split_ifs
        · exact hfits v hv
        · exact hold
    · exact h key e he hkey
  · rw [ho, get?_insert] at he
    split_ifs at he with hpath
    · obtain rfl := Option.some.inj he
      exact hfits v hv
    · exact h key e he hkey

/-- A batch leaves a registry a case can carry. -/
theorem Carriable.update (h : r.Carriable) (es : List DataEntry) (now : ℤ) : (r.update es now).1.Carriable := by
  refine ⟨h.ruled.update es now, ?_, fun e he => ?_⟩
  · have hvalues := h.values
    clear h
    induction es generalizing r with
    | nil => exact hvalues
    | cons d es ih => exact ih (r := (r.applyOne d now).1) (values_applyOne hvalues d now)
  · rw [update_reserved es now (by decide)] at he
    exact h.incarnation e he

/-- Removing leaves one too. -/
theorem Carriable.remove (h : r.Carriable) (ps : List String) : (r.remove ps).1.Carriable := by
  refine ⟨h.ruled.remove ps, ?_, fun e he => ?_⟩
  · have hvalues := h.values
    clear h
    induction ps generalizing r with
    | nil => exact hvalues
    | cons p ps ih =>
      refine ih (r := (r.removeOne p).1) fun key e he hkey => ?_
      rcases r.removeOne_cases p with ⟨reason, ho⟩ | ⟨ks, ho, -⟩
      · rw [ho] at he
        exact hvalues key e he hkey
      · rw [ho] at he
        have he' : (ks.foldl FMap.erase r.entries).get? key = some e := he
        rw [get?_foldl_erase] at he'
        split_ifs at he'
        exact hvalues key e he' hkey
  · rw [remove_reserved ps (by decide)] at he
    exact h.incarnation e he

/-- So does stating a reserved key, an era by a number. -/
theorem Carriable.setReserved (h : r.Carriable) {path value : String} (hkey : IsKey path)
    (hera : path = "/logmon/incarnation" → value ≠ "null") (now : ℤ) : (r.setReserved path value now).1.Carriable := by
  by_cases hres : isReserved path = true
  · refine ⟨h.ruled.setReserved hkey value now, fun key e he hagent => ?_, fun e he => ?_⟩
    · rw [get?_setReserved hres, if_neg (by rintro rfl; simp [hres] at hagent)] at he
      exact h.values key e he hagent
    · rw [get?_setReserved hres] at he
      split_ifs at he with hpath
      · obtain rfl := Option.some.inj he
        unfold stamp
        cases hold : r.get? path with
        | none => exact hera hpath.symm
        | some old =>
          show (restated value now none old).value ≠ "null"
          unfold restated confirmed
          split_ifs
          · exact hera hpath.symm
          · exact h.incarnation old (hpath ▸ hold)
      · exact h.incarnation e he
  · have hsame : (r.setReserved path value now).1 = r := by
      unfold Registry.setReserved
      rw [if_pos (by simpa using hres)]
    rwa [hsame]

theorem carriable_new : new.Carriable :=
  ⟨ruled_new, fun _ _ h => by simp [new, get?] at h, fun _ h => by simp [new, get?] at h⟩

/-- A call the daemon makes on a live domain's registry; the eras it states are
numbers. -/
def daemonCall (r : Registry) (a : RegistryAct) : Prop :=
  r.live a ∧ ∀ value now, a = .setReserved "/logmon/incarnation" value now → ∃ n : ℕ, value = toString n

theorem toString_ne_null (n : ℕ) : toString n ≠ "null" := by
  intro h
  have hmem : 'n' ∈ (toString n).toList := by
    rw [h]
    decide
  exact absurd (isDigit_of_mem_toString hmem) (by decide)

/-- **A case can carry every registry that live calls make.** -/
theorem carriable_of_reach (h : Reach step daemonCall new r) : r.Carriable := by
  refine h.invariant carriable_new ?_
  rintro s a s' hs ⟨hlive, hera⟩ hstep
  cases a with
  | update es now =>
    obtain rfl := Option.some.inj hstep
    exact hs.update es now
  | remove ps =>
    obtain rfl := Option.some.inj hstep
    exact hs.remove ps
  | setReserved path value now =>
    obtain rfl := Option.some.inj hstep
    refine hs.setReserved hlive (fun hpath => ?_) now
    subst hpath
    obtain ⟨n, rfl⟩ := hera value now rfl
    exact toString_ne_null n
  | restore => exact absurd hlive id

theorem reach_setReserved (h : Reach step daemonCall new r) {path value : String} (hkey : IsKey path)
    (hera : path = "/logmon/incarnation" → ∃ n : ℕ, value = toString n) (now : ℤ) :
    Reach step daemonCall new (r.setReserved path value now).1 := by
  refine .next (a := .setReserved path value now) h ⟨hkey, fun value' now' heq => ?_⟩ rfl
  obtain ⟨hpath, rfl, -⟩ := RegistryAct.setReserved.inj heq
  exact hera hpath

/-- Opening a registry is such calls. -/
theorem reach_stampBoot (b : Boot) (now : ℤ) (h : Reach step daemonCall new r) :
    Reach step daemonCall new (r.stampBoot b now) := by
  have hset : ∀ {r : Registry}, Reach step daemonCall new r → ∀ path ∈ ["/logmon/domain", "/logmon/version",
      "/logmon/first_seen", "/logmon/incarnation_started"], ∀ value,
      Reach step daemonCall new (r.setReserved path value now).1 := by
    intro r hr path hpath value
    simp only [List.mem_cons, List.not_mem_nil, or_false] at hpath
    rcases hpath with rfl | rfl | rfl | rfl <;>
      exact reach_setReserved hr ⟨⟨_, false⟩, by decide, rfl, rfl⟩ (fun hera => absurd hera (by decide)) now
  have hstamped := hset (hset h "/logmon/domain" (by simp) b.domain) "/logmon/version" (by simp) b.version
  unfold Registry.stampBoot
  dsimp only
  split
  · refine hset ?_ _ (by simp) _
    exact reach_setReserved (hset hstamped _ (by simp) _) ⟨⟨"/logmon/incarnation", false⟩, by decide, rfl, rfl⟩
      (fun _ => ⟨1, rfl⟩) now
  · exact hstamped

end DomainData.Registry

namespace Cases

open DomainData

/-- A fact as a case's registry file has it. -/
def factOf (now : ℤ) (p : String × DomainData.Entry) : RegistryFact :=
  ⟨p.1, p.2.value, p.2.createdAt, p.2.validatedAt, p.2.ttlSecs, isExpired now p.2⟩

/-- The file's facts are the agents' entries. -/
theorem mem_caseRegistryCopy {now : ℤ} {r : Registry} {f : RegistryFact} :
    f ∈ (caseRegistryCopy now (some r)).1 ↔
      ∃ e, isReserved f.path = false ∧ r.get? f.path = some e ∧ f = factOf now (f.path, e) := by
  simp only [caseRegistryCopy, List.mem_map, List.mem_mergeSort, List.mem_filter]
  constructor
  · rintro ⟨⟨path, e⟩, ⟨hmem, hagent⟩, rfl⟩
    exact ⟨e, by simpa using hagent, FMap.mem_iff.mp hmem, rfl⟩
  · rintro ⟨e, hagent, he, hf⟩
    exact ⟨(f.path, e), ⟨FMap.mem_iff.mpr he, by simpa using hagent⟩, hf.symm⟩

theorem length_caseRegistryCopy (now : ℤ) (r : Registry) :
    (caseRegistryCopy now (some r)).1.length = r.countedLen := by
  unfold caseRegistryCopy Registry.countedLen Registry.counted
  rw [List.length_map, List.length_mergeSort, List.filter_map, List.length_map]
  rfl

/-- An entry as a load restores it: confirmed no earlier than its value. -/
def restoredEntry (e : DomainData.Entry) : DomainData.Entry := { e with validatedAt := max e.validatedAt e.createdAt }

/-- **The agents' facts come back**, each under its own key. -/
theorem restoreFacts_copy (now : ℤ) (r : Registry) {key : String} (hkey : isReserved key = false) :
    (restoreFacts (caseRegistryCopy now (some r)).1).get? key = (r.get? key).map restoredEntry := by
  rw [get?_restoreFacts, if_neg (by simp [hkey])]
  cases hget : r.get? key with
  | none =>
    cases hlast : lastFact (caseRegistryCopy now (some r)).1 key with
    | none => rfl
    | some f =>
      obtain ⟨hmem, rfl⟩ := mem_of_lastFact hlast
      obtain ⟨e, -, he, -⟩ := mem_caseRegistryCopy.mp hmem
      rw [hget] at he
      cases he
  | some e =>
    have hmem : factOf now (key, e) ∈ (caseRegistryCopy now (some r)).1 :=
      mem_caseRegistryCopy.mpr ⟨e, hkey, hget, rfl⟩
    obtain ⟨f, hlast⟩ := exists_lastFact hmem
    have hlast' : lastFact (caseRegistryCopy now (some r)).1 key = some f := hlast
    obtain ⟨hf, hpath⟩ := mem_of_lastFact hlast'
    obtain ⟨e', -, he', heq⟩ := mem_caseRegistryCopy.mp hf
    rw [hpath, hget] at he'
    obtain rfl := Option.some.inj he'
    rw [hlast', heq]
    rfl

/-- The registry of a sealed domain: the case's facts, then the era it was
taken in. -/
def loadedRegistry (c : LoadedCase) : Registry :=
  let r := (c.registry.map fun block => restoreFacts block.facts).getD .new
  match c.front.incarnation with
  | some era => (r.setReserved "/logmon/incarnation" era c.front.capturedAt).1
  | none => r

/-- What a sealed domain's registry has of the one a capture copied: the
agents' facts as they are restored, the era, and no other key of the daemon. -/
def carriedOver (r : Registry) (capturedAt : ℤ) (key : String) : Option DomainData.Entry :=
  if key = "/logmon/incarnation" then (r.get? key).map fun e => .new e.value capturedAt none
  else if isReserved key then none
  else (r.get? key).map restoredEntry

/-- **A case's registry is the one it was copied from**, its facts under their
own times and its era as of the capture. -/
theorem get?_loadedRegistry {c : LoadedCase} {r : Registry} {block : RegistryBlock} (hblock : c.registry = some block)
    (hfacts : block.facts = (caseRegistryCopy c.front.capturedAt (some r)).1)
    (hera : c.front.incarnation = (caseRegistryCopy c.front.capturedAt (some r)).2) (key : String) :
    (loadedRegistry c).get? key = carriedOver r c.front.capturedAt key := by
  have hcopied : ∀ {key}, (restoreFacts block.facts).get? key =
      if isReserved key = true then none else (r.get? key).map restoredEntry := by
    intro key
    rw [hfacts]
    split_ifs with hres
    · rw [get?_restoreFacts, if_pos hres]
    · exact restoreFacts_copy _ r (by simpa using hres)
  have hincarnation : c.front.incarnation = (r.get? "/logmon/incarnation").map DomainData.Entry.value := hera
  have hreserved : isReserved "/logmon/incarnation" = true := by decide
  unfold loadedRegistry carriedOver
  rw [hblock, Option.map_some, Option.getD_some, hincarnation]
  cases hold : r.get? "/logmon/incarnation" with
  | none =>
    show (restoreFacts block.facts).get? key = _
    rw [hcopied]
    by_cases hkey : key = "/logmon/incarnation"
    · rw [if_pos hkey, hkey, if_pos hreserved, hold]
      rfl
    · rw [if_neg hkey]
  | some e =>
    show ((restoreFacts block.facts).setReserved "/logmon/incarnation" e.value c.front.capturedAt).1.get? key = _
    rw [Registry.get?_setReserved hreserved, hcopied, hcopied, if_pos hreserved]
    by_cases hkey : key = "/logmon/incarnation"
    · rw [if_pos hkey, if_pos hkey, hkey, hold]
      rfl
    · rw [if_neg hkey, if_neg hkey]

end Cases
end Logmon
