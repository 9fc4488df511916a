/-
# A restored registry and the live rules

A load puts the facts of a case's registry file back with `restore`, which
skips the gate of the live calls; `parse_registry` stands in for it with a
bound on their number and on their values. It asks nothing of a fact's path
and nothing of its lifetime, so the registry is one that live calls could have
made exactly when the file's facts keep those two rules themselves.

Of two facts under one path the later is what is restored, and a reserved path
is skipped.

Key definitions: `restoreFacts`, `lastFact`, `ObeysLive`, `FactsLive`.
Key theorems: `get?_restoreFacts`, `restored_obeys_iff`.
-/
import Logmon.Cases.Write
import Logmon.DomainData.Live

namespace Logmon
namespace Cases

open Lib DomainData

/-- The registry a load makes of the facts. -/
def restoreFacts (facts : List RegistryFact) : Registry :=
  facts.foldl (fun r f => r.restore f.path f.value f.createdAt f.validatedAt f.ttlSecs) .new

/-- The last fact under a path. -/
def lastFact (facts : List RegistryFact) (path : String) : Option RegistryFact :=
  facts.reverse.find? fun f => f.path = path

/-- A fact as it is restored. -/
def RegistryFact.entry (f : RegistryFact) : DomainData.Entry :=
  ⟨f.value, f.createdAt, max f.validatedAt f.createdAt, f.ttlSecs⟩

theorem restoreFacts_concat (facts : List RegistryFact) (f : RegistryFact) : restoreFacts (facts ++ [f]) =
    (restoreFacts facts).restore f.path f.value f.createdAt f.validatedAt f.ttlSecs := by
  unfold restoreFacts
  rw [List.foldl_append, List.foldl_cons, List.foldl_nil]

theorem lastFact_concat (facts : List RegistryFact) (f : RegistryFact) (path : String) :
    lastFact (facts ++ [f]) path = if f.path = path then some f else lastFact facts path := by
  unfold lastFact
  rw [List.reverse_append, List.reverse_singleton, List.singleton_append, List.find?_cons]
  by_cases h : f.path = path <;> simp [h]

theorem mem_of_lastFact {facts : List RegistryFact} {path : String} {f : RegistryFact}
    (h : lastFact facts path = some f) : f ∈ facts ∧ f.path = path :=
  ⟨List.mem_reverse.mp (List.mem_of_find?_eq_some h), by simpa using List.find?_some h⟩

theorem exists_lastFact {facts : List RegistryFact} {f : RegistryFact} (h : f ∈ facts) :
    ∃ g, lastFact facts f.path = some g := by
  cases hlast : lastFact facts f.path with
  | some g => exact ⟨g, rfl⟩
  | none => simpa using List.find?_eq_none.mp hlast f (List.mem_reverse.mpr h)

/-- **What is restored**: under each path that is not reserved, its last fact. -/
theorem get?_restoreFacts (facts : List RegistryFact) (path : String) : (restoreFacts facts).get? path =
    if isReserved path then none else (lastFact facts path).map RegistryFact.entry := by
  induction facts using List.reverseRecOn with
  | nil =>
    show none = _
    split <;> rfl
  | append_singleton facts f ih =>
    rw [restoreFacts_concat, lastFact_concat]
    unfold Registry.restore
    by_cases hf : f.path = path
    · rw [if_pos hf, hf]
      by_cases hres : isReserved path = true
      · rw [if_pos hres, if_pos hres, ih, if_pos hres]
      · rw [if_neg hres, if_neg hres, Registry.get?_insert, if_pos rfl]
        rfl
    · rw [if_neg hf, ← ih]
      split
      · rfl
      · rw [Registry.get?_insert, if_neg (Ne.symm hf)]

theorem length_restoreFacts (facts : List RegistryFact) : (restoreFacts facts).entries.entries.length ≤ facts.length := by
  induction facts using List.reverseRecOn with
  | nil => exact le_rfl
  | append_singleton facts f ih =>
    rw [restoreFacts_concat, List.length_append, List.length_singleton]
    unfold Registry.restore
    split
    · omega
    · have herase : ((restoreFacts facts).entries.erase f.path).entries.length ≤
          (restoreFacts facts).entries.entries.length := List.length_filter_le _ _
      show ((restoreFacts facts).entries.erase f.path).entries.length + 1 ≤ _
      omega

/-- What is restored is the last fact of its path. -/
theorem restored_fact {facts : List RegistryFact} {path : String} {e : DomainData.Entry}
    (h : (restoreFacts facts).get? path = some e) :
    isReserved path = false ∧ ∃ f, lastFact facts path = some f ∧ e = f.entry := by
  rw [get?_restoreFacts] at h
  split_ifs at h with hres
  obtain ⟨f, hf, rfl⟩ := Option.map_eq_some_iff.mp h
  exact ⟨by simpa using hres, f, hf, rfl⟩

/-- The last fact of an agents' path is restored. -/
theorem restored_of_lastFact {facts : List RegistryFact} {path : String} {f : RegistryFact}
    (hres : isReserved path = false) (h : lastFact facts path = some f) :
    (restoreFacts facts).get? path = some f.entry := by
  rw [get?_restoreFacts, h]
  simp [hres]

/-! ### The live rules -/

/-- The registry keeps the live rules, and live calls could have made it. -/
structure ObeysLive (r : Registry) : Prop where
  keys : ∀ path, (r.get? path).isSome = true → IsKey path
  room : r.entries.entries.length ≤ maxKeys
  values : ∀ path e, r.get? path = some e → e.value.utf8ByteSize ≤ maxValueBytes
  made : ∃ r', Reach Registry.step Registry.liveCall .new r' ∧ ∀ path, r'.get? path = r.get? path

/-- The two rules nothing checks: an agents' fact is under a key, and the last
one under it states no lifetime of zero. -/
structure FactsLive (facts : List RegistryFact) : Prop where
  keys : ∀ f ∈ facts, isReserved f.path = false → IsKey f.path
  lifetimes : ∀ path f, isReserved path = false → lastFact facts path = some f → f.ttlSecs ≠ some 0

/-- A lifetime is read as an unsigned word of 64 bits. -/
def JsonEnv.LifetimesFit (J : JsonEnv) : Prop := ∀ text block, J.readRegistry text = .ok block →
  ∀ f ∈ block.facts, ∀ secs, f.ttlSecs = some secs → secs ≤ u64Max

/-- **What `parse_registry` checks.** -/
theorem parseRegistry_ok {J : JsonEnv} {text : List Char} {block : RegistryBlock}
    (h : parseRegistry J (some text) = .ok (some block)) : J.readRegistry text = .ok block ∧
      block.facts.length ≤ maxRegistryFacts ∧ ∀ f ∈ block.facts, f.value.utf8ByteSize ≤ maxValueBytes := by
  unfold parseRegistry at h
  simp only at h
  split at h
  · cases h
  · rename_i b hb
    by_cases hlen : maxRegistryFacts < b.facts.length
    · rw [if_pos hlen] at h
      cases h
    rw [if_neg hlen] at h
    split at h
    · cases h
    · rename_i hfind
      split_ifs at h
      obtain rfl : b = block := by simpa using h
      refine ⟨hb, Nat.le_of_not_lt hlen, fun f hf => ?_⟩
      simpa using List.find?_eq_none.mp hfind f hf

/-- **The restored registry obeys the live rules exactly when the file's facts
keep the two that are not checked.** -/
theorem restored_obeys_iff {J : JsonEnv} {text : List Char} {block : RegistryBlock} (hJ : J.LifetimesFit)
    (hparse : parseRegistry J (some text) = .ok (some block)) :
    ObeysLive (restoreFacts block.facts) ↔ FactsLive block.facts := by
  obtain ⟨hread, hcount, hvalues⟩ := parseRegistry_ok hparse
  refine ⟨fun h => ⟨fun f hf hres => ?_, fun path f hres hlast => ?_⟩, fun h => ?_⟩
  · obtain ⟨g, hg⟩ := exists_lastFact hf
    exact h.keys f.path (by rw [restored_of_lastFact hres hg]; rfl)
  · obtain ⟨r', hreach, hsame⟩ := h.made
    exact (Registry.rules_of_reach hreach).lifetimes path f.entry ((hsame path).trans (restored_of_lastFact hres hlast))
  · have hlen : (restoreFacts block.facts).entries.entries.length ≤ maxKeys := (length_restoreFacts _).trans hcount
    have hkey : ∀ path e, (restoreFacts block.facts).get? path = some e → IsKey path := by
      intro path e he
      obtain ⟨hres, f, hf, -⟩ := restored_fact he
      obtain ⟨hmem, rfl⟩ := mem_of_lastFact hf
      exact h.keys f hmem hres
    have hvalue : ∀ path e, (restoreFacts block.facts).get? path = some e → e.value.utf8ByteSize ≤ maxValueBytes := by
      intro path e he
      obtain ⟨-, f, hf, rfl⟩ := restored_fact he
      exact hvalues f (mem_of_lastFact hf).1
    refine ⟨fun path hp => ?_, hlen, hvalue, Registry.reached_of_rules hlen fun path e he => ?_⟩
    · obtain ⟨e, he⟩ := Option.isSome_iff_exists.mp hp
      exact hkey path e he
    · obtain ⟨hres, f, hf, rfl⟩ := restored_fact he
      refine ⟨hkey path _ he, hres, hvalue path _ he, fun secs hsecs => ⟨?_, ?_⟩⟩
      · refine Nat.pos_of_ne_zero fun hzero => h.lifetimes path f hres hf ?_
        rw [← hzero]
        exact hsecs
      · exact hJ text block hread f (mem_of_lastFact hf).1 secs hsecs

/-! ### Files of one fact -/

/-- A registry file of one fact under a path, for an hour. -/
def actionRegistry (path : String) : List Char :=
  "\x7b\"dropped\":0,\"facts\":[\x7b\"created_at\":\"1970-01-01T00:00:00Z\",\"expired\":false,\"path\":\"".toList ++
    path.toList ++ "\",\"ttl_secs\":3600,\"validated_at\":\"1970-01-01T00:00:00Z\",\"value\":\"deploy\"\x7d],".toList ++
    "\"logmon_format\":1\x7d".toList

def actionFact (path : String) : RegistryFact := ⟨path, "deploy", 0, 0, some 3600, some false⟩

/-- JSON on that file. -/
def actionJson (path : String) : JsonEnv :=
  { sampleJson with
    readRegistry := fun t =>
      if t = actionRegistry path then .ok ⟨1, [actionFact path], 0⟩ else .error "expected value at line 1 column 1" }

theorem actionJson_lifetimes (path : String) : (actionJson path).LifetimesFit := by
  intro text block h f hf secs hsecs
  simp only [actionJson] at h
  split_ifs at h
  obtain rfl := Except.ok.inj h
  obtain rfl := List.mem_singleton.mp hf
  obtain rfl : 3600 = secs := Option.some.inj hsecs
  decide

theorem parseRegistry_action (path : String) : parseRegistry (actionJson path) (some (actionRegistry path)) =
    .ok (some ⟨1, [actionFact path], 0⟩) := by
  have hread : (actionJson path).readRegistry (actionRegistry path) = .ok ⟨1, [actionFact path], 0⟩ := by
    simp only [actionJson, if_true]
  unfold parseRegistry
  simp only [hread]
  rfl

/-- A key, with a lifetime. -/
theorem action_registry_obeys : ObeysLive (restoreFacts [actionFact "/Action"]) := by
  refine (restored_obeys_iff (actionJson_lifetimes _) (parseRegistry_action _)).mpr ⟨fun f hf _ => ?_,
    fun path f _ hlast => ?_⟩
  · obtain rfl := List.mem_singleton.mp hf
    exact ⟨⟨"/Action", false⟩, by decide, rfl, rfl⟩
  · obtain rfl := List.mem_singleton.mp (mem_of_lastFact hlast).1
    decide

/-- A file is accepted, and a path that is no key is restored. -/
theorem slashless_registry_restored : ∃ block,
    parseRegistry (actionJson "Action") (some (actionRegistry "Action")) = .ok (some block) ∧
    ((restoreFacts block.facts).get? "Action").isSome = true ∧ ¬ IsKey "Action" ∧
    ¬ ObeysLive (restoreFacts block.facts) := by
  have hkey : ¬ IsKey "Action" := by
    rintro ⟨k, hk, -, -⟩
    have hparse : Key.parse "Action" false = .error .malformed := by decide
    rw [hparse] at hk
    cases hk
  have hheld : ((restoreFacts [actionFact "Action"]).get? "Action").isSome = true := by decide
  exact ⟨⟨1, [actionFact "Action"], 0⟩, parseRegistry_action "Action", hheld, hkey, fun h => hkey (h.keys _ hheld)⟩

end Cases
end Logmon
