/-
# A document's facts

`partition_scoped` and `scope_one` of `domain_data/store.rs`: the sigilled
entries of a call become the document's facts, one for each key, the last
writer of a key winning, at most 64 of them.

Unlike the registry, which asks for room only when it seats a new key
(`Registry.applyOne_full_iff`), `scope_one` asks before it looks the key up. So
the facts are those of a last-writer-wins map with a cap on its keys exactly
where no entry states one of the first 64 keys again after the 64th
(`last_writer_wins_iff`).

Key definitions: `stated`, `scopeAll`, `partitionScoped`, `firstKeys`,
`LastWriterWins`.
Key theorems: `scopeAll_keys`, `last_writer_wins_iff`.
-/
import Logmon.Cases.CaseData
import Logmon.DomainData.Batch

namespace Logmon
namespace Cases

open Lib DomainData

/-! ### Entries in order -/

/-- The facts after one entry. -/
def scopeStep (facts : List ScopedFact) (d : DataEntry) : List ScopedFact :=
  match scopeEntry d facts with
  | .ok facts => facts
  | .error _ => facts

/-- The facts after entries put to `scope_one` in order. -/
def scopeAll (es : List DataEntry) : List ScopedFact := es.foldl scopeStep []

/-- The entries of a call taken apart. -/
structure Partition where
  registry : List DataEntry
  facts : List ScopedFact
  rejections : List DataOutcome

def partitionEntry (p : Partition) (d : DataEntry) : Partition :=
  if isScoped d then
    match scopeEntry d p.facts with
    | .ok facts => { p with facts }
    | .error reason => { p with rejections := p.rejections ++ [⟨d.path, .rejected reason⟩] }
  else { p with registry := p.registry ++ [d] }

/-- `partition_scoped`. -/
def partitionScoped (es : List DataEntry) : Partition := es.foldl partitionEntry ⟨[], [], []⟩

/-- What an entry states about the document: nothing, where its key or its
value does not do. -/
def stated (d : DataEntry) : Option ScopedFact :=
  match Key.parse d.path true with
  | .error _ => none
  | .ok key =>
    if isReserved key.path then none
    else d.value.bind fun value => if maxValueBytes < value.utf8ByteSize then none else some ⟨key.rendered, value⟩

theorem scopeAll_append (es : List DataEntry) (d : DataEntry) : scopeAll (es ++ [d]) = scopeStep (scopeAll es) d := by
  simp [scopeAll]

/-- An entry that states nothing is refused, and not for want of room. -/
theorem scopeEntry_of_none {d : DataEntry} (h : stated d = none) (facts : List ScopedFact) :
    ∃ reason, reason ≠ .registryFull ∧ scopeEntry d facts = .error reason := by
  unfold stated at h
  unfold scopeEntry
  cases hkey : Key.parse d.path true with
  | error err => exact ⟨_, by cases err <;> simp [KeyError.reason], rfl⟩
  | ok key =>
    rw [hkey] at h
    dsimp only at h ⊢
    split at h
    · rename_i hres
      exact ⟨.reservedPrefix, by simp, if_pos hres⟩
    · rename_i hres
      rw [if_neg hres]
      cases hvalue : d.value with
      | none => exact ⟨.malformedPath, by simp, rfl⟩
      | some value =>
        have hlong : maxValueBytes < value.utf8ByteSize := by simpa [hvalue] using h
        exact ⟨.valueTooLong, by simp, if_pos hlong⟩

/-- One that states a fact is refused exactly for want of room. -/
theorem scopeEntry_of_some {d : DataEntry} {f : ScopedFact} (h : stated d = some f) (facts : List ScopedFact) :
    scopeEntry d facts =
      if maxSigilKeys ≤ facts.length then .error .registryFull else .ok (scopeOne f.key f.value facts) := by
  unfold stated at h
  unfold scopeEntry
  cases hkey : Key.parse d.path true with
  | error err => simp [hkey] at h
  | ok key =>
    rw [hkey] at h
    dsimp only at h ⊢
    split at h
    · simp at h
    rename_i hres
    rw [if_neg hres]
    obtain ⟨value, hvalue, hf⟩ := Option.bind_eq_some_iff.mp h
    split at hf
    · simp at hf
    rename_i hfits
    obtain rfl : _ = f := Option.some.inj hf
    rw [hvalue]
    exact if_neg hfits

theorem scopeStep_of_none {d : DataEntry} (h : stated d = none) (facts : List ScopedFact) : scopeStep facts d = facts := by
  obtain ⟨reason, -, hstep⟩ := scopeEntry_of_none h facts
  rw [scopeStep, hstep]

theorem scopeStep_of_some {d : DataEntry} {f : ScopedFact} (h : stated d = some f) (facts : List ScopedFact) :
    scopeStep facts d = if maxSigilKeys ≤ facts.length then facts else scopeOne f.key f.value facts := by
  rw [scopeStep, scopeEntry_of_some h]
  by_cases hfull : maxSigilKeys ≤ facts.length
  · rw [if_pos hfull, if_pos hfull]
  · rw [if_neg hfull, if_neg hfull]

/-- The partition's facts are those of its sigilled entries, in order. -/
theorem partitionScoped_facts (es : List DataEntry) : (partitionScoped es).facts = scopeAll (es.filter isScoped) := by
  induction es using List.reverseRecOn with
  | nil => rfl
  | append_singleton es d ih =>
    have hstep : (partitionScoped (es ++ [d])).facts = (partitionEntry (partitionScoped es) d).facts := by
      simp [partitionScoped]
    rw [hstep, partitionEntry, List.filter_append]
    cases hd : isScoped d with
    | true =>
      rw [if_pos rfl, List.filter_singleton, hd, cond_true, scopeAll_append, ← ih, scopeStep]
      cases scopeEntry d (partitionScoped es).facts <;> rfl
    | false => rw [if_neg Bool.false_ne_true, List.filter_singleton, hd, cond_false, List.append_nil, ← ih]

/-! ### The keys -/

/-- The keys the entries state, each where it is stated first. -/
def firstKeys (es : List DataEntry) : List String := ((es.filterMap stated).map ScopedFact.key).eraseDups

theorem firstKeys_of_none {d : DataEntry} (h : stated d = none) (es : List DataEntry) :
    firstKeys (es ++ [d]) = firstKeys es := by
  simp [firstKeys, h]

theorem firstKeys_of_some {d : DataEntry} {f : ScopedFact} (h : stated d = some f) (es : List DataEntry) :
    firstKeys (es ++ [d]) = if f.key ∈ firstKeys es then firstKeys es else firstKeys es ++ [f.key] := by
  unfold firstKeys
  rw [List.filterMap_append, List.map_append, List.eraseDups_append]
  have hlast : ([d].filterMap stated).map ScopedFact.key = [f.key] := by simp [h]
  rw [hlast]
  by_cases hmem : f.key ∈ (es.filterMap stated).map ScopedFact.key
  · rw [if_pos (List.mem_eraseDups.mpr hmem)]
    simp [List.removeAll, hmem]
  · rw [if_neg fun hin => hmem (List.mem_eraseDups.mp hin)]
    simp [List.removeAll, hmem, List.eraseDups_cons]

/-- **The keys held** are the first 64 of those stated. -/
theorem scopeAll_keys (es : List DataEntry) : (scopeAll es).map ScopedFact.key = (firstKeys es).take maxSigilKeys := by
  induction es using List.reverseRecOn with
  | nil => rfl
  | append_singleton es d ih =>
    rw [scopeAll_append]
    cases hd : stated d with
    | none => rw [scopeStep_of_none hd, firstKeys_of_none hd, ih]
    | some f =>
      rw [scopeStep_of_some hd, firstKeys_of_some hd]
      have hlen : (scopeAll es).length = min maxSigilKeys (firstKeys es).length := by
        simpa using congrArg List.length ih
      by_cases hfull : maxSigilKeys ≤ (scopeAll es).length
      · rw [if_pos hfull, ih]
        split
        · rfl
        · rw [List.take_append_of_le_length (by omega)]
      · have hall : (firstKeys es).take maxSigilKeys = firstKeys es := List.take_of_length_le (by omega)
        rw [if_neg hfull, scopeOne_keys, ih, hall]
        split
        · rw [hall]
        · rw [List.take_of_length_le]
          rw [List.length_append, List.length_singleton]
          omega

theorem length_scopeAll (es : List DataEntry) : (scopeAll es).length = min maxSigilKeys (firstKeys es).length := by
  simpa using congrArg List.length (scopeAll_keys es)

/-! ### The last writer -/

/-- The value the entries state for a key last. -/
def lastStated (key : String) (es : List DataEntry) : Option String :=
  (((es.filterMap stated).filter fun f => f.key = key).getLast?).map ScopedFact.value

theorem lastStated_of_none {d : DataEntry} (h : stated d = none) (key : String) (es : List DataEntry) :
    lastStated key (es ++ [d]) = lastStated key es := by
  simp [lastStated, h]

theorem lastStated_of_some {d : DataEntry} {f : ScopedFact} (h : stated d = some f) (key : String) (es : List DataEntry) :
    lastStated key (es ++ [d]) = if f.key = key then some f.value else lastStated key es := by
  unfold lastStated
  rw [List.filterMap_append, List.filter_append]
  by_cases hkey : f.key = key <;> simp [h, hkey]

theorem mem_scopeOne {key value : String} {f : ScopedFact} : ∀ {facts : List ScopedFact},
    (facts.map ScopedFact.key).Nodup → f ∈ scopeOne key value facts → f = ⟨key, value⟩ ∨ f ∈ facts ∧ f.key ≠ key
  | [], _, h => .inl (by simpa [scopeOne] using h)
  | g :: facts, hnd, h => by
    obtain ⟨hnot, hnd⟩ := List.nodup_cons.mp hnd
    unfold scopeOne at h
    split at h
    · rename_i hg
      rcases List.mem_cons.mp h with rfl | hf
      · exact .inl (by rw [hg])
      · exact .inr ⟨List.mem_cons_of_mem _ hf, fun hkey =>
          hnot (by rw [hg, ← hkey]; exact List.mem_map_of_mem hf)⟩
    · rename_i hg
      rcases List.mem_cons.mp h with rfl | hf
      · exact .inr ⟨List.mem_cons_self, hg⟩
      · exact (mem_scopeOne hnd hf).imp id fun ⟨hmem, hne⟩ => ⟨List.mem_cons_of_mem _ hmem, hne⟩

theorem nodup_scopeAll (es : List DataEntry) : ((scopeAll es).map ScopedFact.key).Nodup := by
  induction es using List.reverseRecOn with
  | nil => exact List.nodup_nil
  | append_singleton es d ih =>
    rw [scopeAll_append]
    cases hd : stated d with
    | none => rwa [scopeStep_of_none hd]
    | some f =>
      rw [scopeStep_of_some hd]
      split
      · exact ih
      · exact scopeOne_nodup f.key f.value ih

/-- The facts a capped map with the last writer winning would hold, and the
entries it would refuse. -/
structure LastWriterWins (es : List DataEntry) : Prop where
  /-- The keys are distinct. -/
  distinct : ((scopeAll es).map ScopedFact.key).Nodup
  /-- They are bounded. -/
  capped : (scopeAll es).length ≤ maxSigilKeys
  /-- An accepted key holds the value stated for it last. -/
  last : ∀ before d after facts, es = before ++ d :: after → scopeEntry d (scopeAll before) = .ok facts →
    ∃ f v, stated d = some f ∧ ⟨f.key, v⟩ ∈ scopeAll es ∧ lastStated f.key es = some v
  /-- An entry is refused for want of room exactly where its key is not held
  and the cap is reached. -/
  full : ∀ before d after, es = before ++ d :: after →
    (scopeEntry d (scopeAll before) = .error .registryFull ↔
      ∃ f, stated d = some f ∧ f.key ∉ (scopeAll before).map ScopedFact.key ∧ maxSigilKeys ≤ (scopeAll before).length)

/-- None of the first 64 keys is stated again once 64 are. -/
def NotRestated (es : List DataEntry) : Prop :=
  ∀ before d after f, es = before ++ d :: after → stated d = some f → maxSigilKeys ≤ (firstKeys before).length →
    f.key ∉ (firstKeys before).take maxSigilKeys

theorem NotRestated.init {es : List DataEntry} {d : DataEntry} (h : NotRestated (es ++ [d])) : NotRestated es :=
  fun before d' after f hes => h before d' (after ++ [d]) f (by rw [hes, List.append_assoc, List.cons_append])

/-- Each fact holds the value stated last, where no held key is refused. -/
theorem last_of_notRestated {es : List DataEntry} (h : NotRestated es) :
    ∀ f ∈ scopeAll es, lastStated f.key es = some f.value := by
  induction es using List.reverseRecOn with
  | nil => exact fun f hf => absurd hf List.not_mem_nil
  | append_singleton es d ih =>
    intro f hf
    have ih := ih h.init
    rw [scopeAll_append] at hf
    cases hd : stated d with
    | none =>
      rw [scopeStep_of_none hd] at hf
      rw [lastStated_of_none hd, ih f hf]
    | some g =>
      rw [scopeStep_of_some hd] at hf
      rw [lastStated_of_some hd]
      split at hf
      · rename_i hfull
        have hlen := length_scopeAll es
        have hnot := h es d [] g rfl hd (by omega)
        rw [← scopeAll_keys] at hnot
        rw [if_neg fun hkey => hnot (by rw [hkey]; exact List.mem_map_of_mem hf), ih f hf]
      · rcases mem_scopeOne (nodup_scopeAll es) hf with rfl | ⟨hmem, hne⟩
        · rw [if_pos rfl]
        · rw [if_neg (Ne.symm hne), ih f hmem]

/-- A key that is held stays held. -/
theorem scopeAll_keys_mono {key : String} (before after : List DataEntry)
    (h : key ∈ (scopeAll before).map ScopedFact.key) : key ∈ (scopeAll (before ++ after)).map ScopedFact.key := by
  induction after using List.reverseRecOn with
  | nil => rwa [List.append_nil]
  | append_singleton after d ih =>
    rw [← List.append_assoc, scopeAll_append]
    cases hd : stated d with
    | none => rwa [scopeStep_of_none hd]
    | some f =>
      rw [scopeStep_of_some hd]
      split
      · exact ih
      · rw [scopeOne_keys]
        split
        · exact ih
        · exact List.mem_append_left _ ih

theorem notRestated_of_lastWriterWins {es : List DataEntry} (h : LastWriterWins es) : NotRestated es := by
  intro before d after f hes hd hcap hmem
  have hlen := length_scopeAll before
  have hfull : scopeEntry d (scopeAll before) = .error .registryFull := by
    rw [scopeEntry_of_some hd, if_pos (by omega)]
  obtain ⟨g, hg, hnot, -⟩ := (h.full before d after hes).mp hfull
  obtain rfl : f = g := Option.some.inj (hd.symm.trans hg)
  rw [scopeAll_keys] at hnot
  exact hnot hmem

theorem lastWriterWins_of_notRestated {es : List DataEntry} (h : NotRestated es) : LastWriterWins es := by
  refine ⟨nodup_scopeAll es, by rw [length_scopeAll]; omega, ?_, ?_⟩
  · intro before d after facts hes hok
    cases hd : stated d with
    | none =>
      obtain ⟨reason, -, herr⟩ := scopeEntry_of_none hd (scopeAll before)
      rw [herr] at hok
      simp at hok
    | some f =>
      have hheld : f.key ∈ (scopeAll (before ++ [d])).map ScopedFact.key := by
        rw [scopeAll_append, scopeStep, hok]
        rw [scopeEntry_of_some hd] at hok
        split at hok
        · simp at hok
        · rw [← Except.ok.inj hok, scopeOne_keys]
          split
          · assumption
          · exact List.mem_append_right _ (List.mem_singleton_self _)
      have hheld := scopeAll_keys_mono (before ++ [d]) after hheld
      rw [List.append_assoc, List.singleton_append, ← hes] at hheld
      obtain ⟨g, hg, hkey⟩ := List.mem_map.mp hheld
      refine ⟨f, g.value, rfl, ?_, ?_⟩
      · rwa [← hkey]
      · rw [← hkey, last_of_notRestated h g hg]
  · intro before d after hes
    cases hd : stated d with
    | none =>
      obtain ⟨reason, hreason, herr⟩ := scopeEntry_of_none hd (scopeAll before)
      rw [herr]
      exact iff_of_false (fun he => hreason (Except.error.inj he)) fun ⟨f, hf, _⟩ => by simp at hf
    | some f =>
      rw [scopeEntry_of_some hd]
      by_cases hfull : maxSigilKeys ≤ (scopeAll before).length
      · have hlen := length_scopeAll before
        have hnot := h before d after f hes hd (by omega)
        rw [← scopeAll_keys] at hnot
        rw [if_pos hfull]
        exact iff_of_true rfl ⟨f, rfl, hnot, hfull⟩
      · rw [if_neg hfull]
        exact iff_of_false (by simp) fun ⟨_, _, _, hcap⟩ => hfull hcap

/-- **The document's facts are those of a capped map whose last writer wins
exactly where** none of the first 64 keys is stated again once 64 are: the
registry states a held key again at its cap, the document refuses to. -/
theorem last_writer_wins_iff (es : List DataEntry) :
    (LastWriterWins es ↔ NotRestated es) ∧
    ∀ (r : Registry) (d : DataEntry) (now : ℤ), (r.applyOne d now).2 = .rejected .registryFull ↔
      d.admissible = true ∧ d.value.isSome = true ∧ r.get? d.path = none ∧ maxKeys ≤ r.countedLen := by
  exact ⟨⟨notRestated_of_lastWriterWins, lastWriterWins_of_notRestated⟩, fun r d now => r.applyOne_full_iff d now⟩

/-- A key for each number. -/
def numbered (i : ℕ) (value : String) : DataEntry := ⟨"@/" ++ toString i, some value, none⟩

/-- Sixty-four keys, and the first of them stated again. -/
def restatedAtCap : List DataEntry := (List.range maxSigilKeys).map (numbered · "old") ++ [numbered 0 "new"]

theorem firstKeys_numbered : firstKeys ((List.range maxSigilKeys).map (numbered · "old")) =
    (List.range maxSigilKeys).map fun i => "@/" ++ toString i := by
  decide +kernel

/-- The restatement is refused, and the first value stays. -/
theorem restated_at_cap : ¬ LastWriterWins restatedAtCap := by
  intro h
  refine notRestated_of_lastWriterWins h ((List.range maxSigilKeys).map (numbered · "old")) (numbered 0 "new") []
    ⟨"@/0", "new"⟩ rfl (by decide) ?_ ?_
  · rw [firstKeys_numbered, List.length_map, List.length_range]
  · rw [firstKeys_numbered, List.take_of_length_le (by simp)]
    exact List.mem_map.mpr ⟨0, by decide, by decide⟩

end Cases
end Logmon
