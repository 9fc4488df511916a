/-
# Who is armed where

An armed collector as its files see it: its id, its owner and its name. The
sections of the registry change these in few ways: most not at all, `add`
appends one, `remove` and `detach_session` drop those of a name or an owner,
`move_owner` changes owners. A collector's name never changes
(`Sys.Known.names`): an edit keeps it, so a file prepared for a collector
names it as long as it is armed.

Key definitions: `Entry.key`, `CollectorRegistry.keys`, `Task.Names`,
`Sys.Known`.
Key theorems: `Sys.Known.step`.
-/
import Logmon.Collector.Calls
import Logmon.Lib.Slot

namespace Logmon

open Lib

variable {W Span P : Type}

/-- A collector's id, owner and name. -/
def Entry.key (e : Entry W) : ℕ × SessionName × String := (e.id, e.owner, e.name)

namespace CollectorRegistry

variable {env : CollectorEnv W Span} {loss : ℕ → TraceIngestLoss} {r r' : CollectorRegistry W}
  {owner : SessionName} {name : String} {id : ℕ} {o : SessionName} {n : String}

def keys (r : CollectorRegistry W) : List (ℕ × SessionName × String) := r.entries.map Entry.key

theorem mem_keys : (id, o, n) ∈ r.keys ↔ ∃ e ∈ r.entries, e.id = id ∧ e.owner = o ∧ e.name = n := by
  simp [keys, Entry.key]

theorem key_mem {e : Entry W} (he : e ∈ r.entries) : (e.id, e.owner, e.name) ∈ r.keys :=
  mem_keys.mpr ⟨e, he, rfl, rfl, rfl⟩

theorem find?_mem {p : Entry W → Bool} {e : Entry W} (h : r.entries.find? p = some e) : e ∈ r.entries ∧ p e = true :=
  ⟨List.mem_of_find?_eq_some h, List.find?_some h⟩

theorem keys_add {domain : DomainId} {metrics : ℕ} {defn : CollectorDef} {now : ℤ} {e : Entry W}
    (h : r.add env loss owner domain metrics defn now = .ok (r', e)) :
    r'.keys = r.keys ++ [(r.nextId, owner, defn.name)] ∧ r'.nextId = r.nextId + 1 ∧ e.id = r.nextId ∧
      e.toPersisted.owner = owner.text ∧ e.toPersisted.name = defn.name := by
  obtain ⟨_, _, rfl, rfl⟩ := add_ok h
  exact ⟨by simp [keys]; rfl, rfl, rfl, rfl, rfl⟩

theorem keys_editApply {p : PendingEdit W} {out : EditOutcome W} (h : r.editApply env loss p = .ok (r', out))
    (hname : ∀ o n, (p.id, o, n) ∈ r.keys → n = p.defn.name) : r'.keys = r.keys ∧ r'.nextId = r.nextId := by
  obtain ⟨_, _, rfl⟩ := editApply_ok h
  refine ⟨map_modifyFirst fun e he hp => ?_, rfl⟩
  have hid := (Entry.isHeld_iff.mp hp).1
  have hn : e.name = p.defn.name := hname e.owner e.name (hid ▸ key_mem he)
  simp only [Entry.key, Entry.name, edited_id, edited_owner, edited_defn]
  rw [← hn]
  rfl

theorem keys_reset {now : ℤ} {v : CollectorSnapshot W} (h : r.reset env loss owner name now = .ok (r', v)) :
    r'.keys = r.keys ∧ r'.nextId = r.nextId := by
  obtain ⟨_, _, rfl⟩ := reset_ok h
  exact ⟨map_modifyFirst fun _ _ _ => rfl, rfl⟩

theorem keys_snapshotTake {req : SnapshotRequest} {t : TakenSnapshot W}
    (h : r.snapshotTake env loss owner req = .ok (r', t)) : r'.keys = r.keys ∧ r'.nextId = r.nextId := by
  obtain ⟨_, _, _, _, _, _, rfl⟩ := snapshotTake_ok h
  exact ⟨map_modifyFirst fun e _ _ => by simp [Entry.key, Entry.name], rfl⟩

theorem keys_snapshotFile (t : TakenSnapshot W) :
    (r.snapshotFile t).1.keys = r.keys ∧ (r.snapshotFile t).1.nextId = r.nextId := by
  unfold snapshotFile
  split
  · exact ⟨rfl, rfl⟩
  · exact ⟨map_modifyFirst fun _ _ _ => rfl, rfl⟩

theorem keys_ingestSpan (env : CollectorEnv W Span) (d : DomainId) (sp : Span) :
    (r.ingestSpan env d sp).keys = r.keys ∧ (r.ingestSpan env d sp).nextId = r.nextId := by
  refine ⟨?_, rfl⟩
  simp only [keys, ingestSpan, List.map_map]
  refine List.map_congr_left fun e _ => ?_
  simp only [Function.comp]
  split <;> rfl

theorem mem_keys_remove (h : r.remove owner name = .ok r') :
    (id, o, n) ∈ r'.keys ↔ (id, o, n) ∈ r.keys ∧ ¬ (o = owner ∧ n = name) := by
  obtain rfl := remove_ok h
  simp only [mem_keys, List.mem_filter]
  refine ⟨fun ⟨e, ⟨he, hn⟩, h1, h2, h3⟩ => ⟨⟨e, he, h1, h2, h3⟩, fun hon => ?_⟩,
    fun ⟨⟨e, he, h1, h2, h3⟩, hon⟩ => ⟨e, ⟨he, ?_⟩, h1, h2, h3⟩⟩
  · have : e.isNamed owner name = true := Entry.isNamed_iff.mpr ⟨h2.trans hon.1, h3.trans hon.2⟩
    simp [this] at hn
  · have : ¬ e.isNamed owner name = true := fun hn => hon (by
      obtain ⟨h4, h5⟩ := Entry.isNamed_iff.mp hn
      exact ⟨h2.symm.trans h4, h3.symm.trans h5⟩)
    simpa using this

theorem mem_keys_detach (seq : ℕ) :
    (id, o, n) ∈ (r.detachSession seq owner).1.keys ↔ (id, o, n) ∈ r.keys ∧ o ≠ owner := by
  simp only [detachSession, mem_keys, List.mem_filter, decide_eq_true_eq]
  refine ⟨fun ⟨e, ⟨he, hn⟩, h1, h2, h3⟩ => ⟨⟨e, he, h1, h2, h3⟩, h2 ▸ hn⟩,
    fun ⟨⟨e, he, h1, h2, h3⟩, hon⟩ => ⟨e, ⟨he, h2 ▸ hon⟩, h1, h2, h3⟩⟩

theorem mem_keys_move (seq : ℕ) {old new : SessionName} (hne : old ≠ new) :
    (id, o, n) ∈ (r.moveOwner seq old new).1.keys ↔
      ((id, o, n) ∈ r.keys ∧ o ≠ old) ∨ (o = new ∧ (id, old, n) ∈ r.keys) := by
  unfold moveOwner
  rw [if_neg hne]
  simp only [mem_keys, List.mem_map]
  refine ⟨?_, ?_⟩
  · intro ⟨e', ⟨e, he, hee⟩, h1, h2, h3⟩
    split at hee
    · rename_i hold
      subst hee
      exact .inr ⟨h2.symm, e, he, h1, hold, h3⟩
    · rename_i hold
      subst hee
      exact .inl ⟨⟨e, he, h1, h2, h3⟩, h2 ▸ hold⟩
  · intro h
    rcases h with ⟨⟨e, he, h1, h2, h3⟩, ho⟩ | ⟨ho, e, he, h1, h2, h3⟩
    · exact ⟨e, ⟨e, he, by rw [if_neg (h2 ▸ ho)]⟩, h1, h2, h3⟩
    · exact ⟨{ e with owner := new }, ⟨e, he, by rw [if_pos h2]⟩, h1, ho.symm, h3⟩

theorem mem_moved {seq : ℕ} {old new : SessionName} (hne : old ≠ new) {m : SessionName × SessionName × String × ℕ} :
    m ∈ (r.moveOwner seq old new).2.moved ↔ ∃ id n, (id, old, n) ∈ r.keys ∧ m = (old, new, n, seq) := by
  unfold moveOwner
  rw [if_neg hne]
  simp only [List.mem_map, List.mem_filter, decide_eq_true_eq, mem_keys]
  refine ⟨fun ⟨e, ⟨he, ho⟩, hm⟩ => ⟨e.id, e.name, ⟨e, he, rfl, ho, rfl⟩, hm.symm⟩,
    fun ⟨id, n, ⟨e, he, _, h2, h3⟩, hm⟩ => ⟨e, ⟨he, h2⟩, ?_⟩⟩
  rw [hm, h3]

theorem mem_unlink {seq : ℕ} {u : SessionName × String × ℕ} :
    u ∈ (r.detachSession seq owner).2.unlink ↔ ∃ id n, (id, owner, n) ∈ r.keys ∧ u = (owner, n, seq) := by
  simp only [detachSession, List.mem_map, List.mem_filter, decide_eq_true_eq, mem_keys]
  refine ⟨fun ⟨e, ⟨he, ho⟩, hm⟩ => ⟨e.id, e.name, ⟨e, he, rfl, ho, rfl⟩, hm.symm⟩,
    fun ⟨id, n, ⟨e, he, _, h2, h3⟩, hm⟩ => ⟨e, ⟨he, h2⟩, ?_⟩⟩
  rw [hm, h3]

/-- Ids are distinct, and the next one is new. -/
structure Distinct (r : CollectorRegistry W) : Prop where
  ids : (r.keys.map Prod.fst).Nodup
  below : ∀ id o n, (id, o, n) ∈ r.keys → id < r.nextId

theorem Distinct.unique (h : r.Distinct) {e e' : Entry W} (he : e ∈ r.entries) (he' : e' ∈ r.entries)
    (hid : e.id = e'.id) : e = e' := by
  have hids : (r.entries.map Entry.id).Nodup := by simpa [keys, Entry.key, Function.comp_def] using h.ids
  exact List.inj_on_of_nodup_map hids he he' hid

/-- Where one collector is replaced, the others are those with another id. -/
theorem Distinct.mem_modifyFirst (h : r.Distinct) {p : Entry W → Bool} {f : Entry W → Entry W} {a e : Entry W}
    (hfind : r.entries.find? p = some a) (he : e ∈ modifyFirst p f r.entries) :
    e = f a ∨ (e ∈ r.entries ∧ e.id ≠ a.id) := by
  have hids : (r.entries.map Entry.id).Nodup := by simpa [keys, Entry.key, Function.comp_def] using h.ids
  exact mem_modifyFirst_of_nodup hids hfind he

theorem Distinct.of_eq (h : r.Distinct) (hk : r'.keys = r.keys ∧ r'.nextId = r.nextId) : r'.Distinct :=
  ⟨by rw [hk.1]; exact h.ids, by rw [hk.1, hk.2]; exact h.below⟩

theorem Distinct.append (h : r.Distinct) (hk : r'.keys = r.keys ++ [(r.nextId, o, n)])
    (hn : r'.nextId = r.nextId + 1) : r'.Distinct := by
  refine ⟨?_, fun id o' n' hin => ?_⟩
  · rw [hk, List.map_append, List.map_singleton, List.nodup_append]
    refine ⟨h.ids, List.nodup_singleton _, fun a ha b hb => ?_⟩
    obtain ⟨⟨id, o', n'⟩, hin, rfl⟩ := List.mem_map.mp ha
    obtain rfl := List.mem_singleton.mp hb
    exact Nat.ne_of_lt (h.below id o' n' hin)
  · rw [hk, List.mem_append, List.mem_singleton] at hin
    rcases hin with hin | hin
    · have := h.below id o' n' hin
      omega
    · have : id = r.nextId := congrArg Prod.fst hin
      omega

theorem Distinct.filter (h : r.Distinct) (p : Entry W → Bool) : Distinct { r with entries := r.entries.filter p } := by
  have hsub : List.Sublist (keys { r with entries := r.entries.filter p }) r.keys := List.filter_sublist.map _
  exact ⟨h.ids.sublist (hsub.map _), fun id o n hk => h.below id o n (hsub.subset hk)⟩

theorem Distinct.move (h : r.Distinct) (seq : ℕ) (old new : SessionName) : (r.moveOwner seq old new).1.Distinct := by
  unfold moveOwner
  split
  · exact h
  have hids : ∀ e : Entry W, (if e.owner = old then { e with owner := new } else e).id = e.id := by
    intro e
    split <;> rfl
  refine ⟨?_, fun id o n hk => ?_⟩
  · have := h.ids
    simpa [keys, Entry.key, Function.comp_def, hids] using this
  · obtain ⟨e', he', h1, _, _⟩ := mem_keys.mp hk
    obtain ⟨e, he, rfl⟩ := List.mem_map.mp he'
    rw [← h1, hids]
    exact h.below e.id e.owner e.name (key_mem he)

/-- Ids are not reused: who is armed after a section is who was, under the
same name, or new. -/
def Follows (r r' : CollectorRegistry W) : Prop :=
  r.nextId ≤ r'.nextId ∧ ∀ id o n, (id, o, n) ∈ r'.keys → (∃ o', (id, o', n) ∈ r.keys) ∨ r.nextId ≤ id

theorem Follows.of_eq (h : r'.keys = r.keys ∧ r'.nextId = r.nextId) : Follows r r' :=
  ⟨by rw [h.2], fun id o n hk => .inl ⟨o, h.1 ▸ hk⟩⟩

theorem Follows.refl (r : CollectorRegistry W) : Follows r r := .of_eq ⟨rfl, rfl⟩

end CollectorRegistry

open CollectorRegistry

/-- A file prepared for a collector, or an edit of it, bears its name. -/
def Task.Names (r : CollectorRegistry W) : Task W → Prop
  | .write id file => id < r.nextId ∧ ∀ o n, (id, o, n) ∈ r.keys → n = file.name
  | .editApply p => p.id < r.nextId ∧ ∀ o n, (p.id, o, n) ∈ r.keys → n = p.defn.name
  | _ => True

theorem Task.Names.follows {r r' : CollectorRegistry W} (h : Follows r r') {t : Task W} (ht : t.Names r) :
    t.Names r' := by
  have key : ∀ {i : ℕ} {m : String}, (i < r.nextId ∧ ∀ o n, (i, o, n) ∈ r.keys → n = m) →
      i < r'.nextId ∧ ∀ o n, (i, o, n) ∈ r'.keys → n = m := by
    intro i m ⟨hi, hm⟩
    refine ⟨Nat.lt_of_lt_of_le hi h.1, fun o n hk => ?_⟩
    rcases h.2 i o n hk with ⟨o', hk'⟩ | hge
    · exact hm o' n hk'
    · omega
  cases t with
  | write id file => exact key ht
  | editApply p => exact key ht
  | _ => trivial

/-- An armed collector's id bears its name. -/
theorem CollectorRegistry.Distinct.names {r : CollectorRegistry W} (h : r.Distinct) {e : Entry W}
    (he : e ∈ r.entries) : e.id < r.nextId ∧ ∀ o n, (e.id, o, n) ∈ r.keys → n = e.name := by
  refine ⟨h.below e.id e.owner e.name (key_mem he), fun o n hk => ?_⟩
  obtain ⟨e', he', h1, _, h3⟩ := mem_keys.mp hk
  rw [← h3, h.unique he' he h1]

namespace Sys

variable {env : CollectorEnv W Span} {s s' : Sys W P}

/-- What a section does to ids and names. -/
structure LockedKnown (s : Sys W P) (res : CollectorRegistry W × List (Task W)) : Prop where
  follows : Follows s.reg res.1
  distinct : res.1.Distinct
  names : ∀ t ∈ res.2, t.Names res.1

theorem LockedKnown.same {res : CollectorRegistry W × List (Task W)} (h : s.reg.Distinct)
    (hk : res.1.keys = s.reg.keys ∧ res.1.nextId = s.reg.nextId) (hn : ∀ t ∈ res.2, t.Names s.reg) :
    LockedKnown s res :=
  ⟨.of_eq hk, h.of_eq hk, fun t ht => (hn t ht).follows (.of_eq hk)⟩

theorem change_known (h : s.reg.Distinct) (c : Lifecycle) :
    Follows s.reg (change s.reg s.seq c).1 ∧ (change s.reg s.seq c).1.Distinct := by
  cases c with
  | moveOwner old new =>
    refine ⟨?_, h.move s.seq old new⟩
    by_cases hne : old = new
    · show Follows s.reg (s.reg.moveOwner s.seq old new).1
      rw [moveOwner, if_pos hne]
      exact .refl _
    · refine ⟨by simp [change, moveOwner, hne], fun id o n hk => .inl ?_⟩
      rcases (mem_keys_move s.seq hne).mp hk with ⟨hk, _⟩ | ⟨_, hk⟩
      · exact ⟨o, hk⟩
      · exact ⟨old, hk⟩
  | detachSession owner =>
    refine ⟨⟨Nat.le_refl _, fun id o n hk => .inl ⟨o, ((mem_keys_detach s.seq).mp hk).1⟩⟩, h.filter _⟩

theorem locked_known (env : CollectorEnv W Span) (h : s.reg.Distinct) (t : Task W) (ht : t.Names s.reg) : LockedKnown s (s.locked env t) := by
  cases t with
  | add owner domain metrics defn now =>
    simp only [locked]
    split
    · exact .same h ⟨rfl, rfl⟩ (by simp)
    · rename_i r e hadd
      obtain ⟨hk, hn, hid, _, hname⟩ := keys_add hadd
      have hmem : ∀ id o n, (id, o, n) ∈ r.keys → (id, o, n) ∈ s.reg.keys ∨ (id = s.reg.nextId ∧ n = defn.name) := by
        intro id o n hin
        rw [hk, List.mem_append, List.mem_singleton] at hin
        simp only [Prod.mk.injEq] at hin
        exact hin.imp_right fun hin => ⟨hin.1, hin.2.2⟩
      refine ⟨⟨?_, fun id o n hin => ?_⟩, h.append hk hn, ?_⟩
      · show s.reg.nextId ≤ r.nextId
        omega
      · rcases hmem id o n hin with hin | ⟨rfl, _⟩
        · exact .inl ⟨o, hin⟩
        · exact .inr (Nat.le_refl _)
      · intro t' ht'
        obtain rfl := List.mem_singleton.mp ht'
        refine ⟨(by omega : e.id < r.nextId), fun o n hin => ?_⟩
        rcases hmem e.id o n hin with hin | ⟨_, hn⟩
        · have := h.below e.id o n hin
          omega
        · rw [hn, hname]
  | editCheck owner name change newMetrics now =>
    simp only [locked]
    split
    · exact .same h ⟨rfl, rfl⟩ (by simp)
    · rename_i p hp
      obtain ⟨e, hc⟩ := editCheck_ok hp
      have hn := h.names (find?_mem hc.found).1
      rw [← hc.id, ← hc.defName] at hn
      refine .same h ⟨rfl, rfl⟩ fun t' ht' => ?_
      rcases List.mem_cons.mp ht' with rfl | ht'
      · refine ⟨hn.1, fun o n hk => ?_⟩
        rw [hn.2 o n hk, hc.file]
        rfl
      · obtain rfl := List.mem_singleton.mp ht'
        exact hn
  | editApply p =>
    simp only [locked]
    split
    · exact .same h ⟨rfl, rfl⟩ (by simp)
    · rename_i r out happly
      exact .same h (keys_editApply happly ht.2) (by simp)
  | snapshotTake owner req =>
    simp only [locked]
    split
    · exact .same h ⟨rfl, rfl⟩ (by simp)
    · rename_i r t htake
      exact .same h (keys_snapshotTake htake) (by simp [Task.Names])
  | snapshotFile t =>
    have hk := keys_snapshotFile (r := s.reg) t
    simp only [locked]
    split
    · rename_i r hf
      exact .same h (by simpa [hf] using hk) (by simp)
    · rename_i r file hf
      refine .same h (by simpa [hf] using hk) fun t' ht' => ?_
      obtain rfl := List.mem_singleton.mp ht'
      unfold snapshotFile at hf
      split at hf
      · simp at hf
      · rename_i e he
        obtain ⟨hmem, hid⟩ := find?_mem he
        simp only [Prod.mk.injEq, Option.some.injEq] at hf
        have hn := h.names hmem
        rw [show e.id = t.id by simpa using hid] at hn
        exact ⟨hn.1, fun o n hk => by rw [hn.2 o n hk, ← hf.2]; rfl⟩
  | reset owner name now =>
    simp only [locked]
    split
    · exact .same h ⟨rfl, rfl⟩ (by simp)
    · rename_i r v hr
      exact .same h (keys_reset hr) (by simp)
  | remove owner name =>
    simp only [locked]
    split
    · exact .same h ⟨rfl, rfl⟩ (by simp)
    · rename_i r hr
      refine ⟨⟨?_, fun id o n hk => .inl ⟨o, ((mem_keys_remove hr).mp hk).1⟩⟩, ?_, by simp [Task.Names]⟩
      · rw [remove_ok hr]
      · rw [remove_ok hr]
        exact h.filter _
  | lifecycle changes pending =>
    cases changes with
    | nil =>
      refine .same h ⟨rfl, rfl⟩ fun t' ht' => ?_
      simp only [locked, finish, List.mem_append, List.mem_map] at ht'
      rcases ht' with ⟨_, _, rfl⟩ | ⟨_, _, rfl⟩ <;> trivial
    | cons c cs =>
      obtain ⟨hf, hd⟩ := change_known h c
      exact ⟨hf, hd, by simp [locked, Task.Names]⟩
  | rewrite old new name since =>
    simp only [locked]
    split
    · exact .same h ⟨rfl, rfl⟩ (by simp [Task.Names])
    · rename_i e he
      refine .same h ⟨rfl, rfl⟩ fun t' ht' => ?_
      rcases List.mem_cons.mp ht' with rfl | ht'
      · exact h.names (find?_mem he).1
      · obtain rfl := List.mem_singleton.mp ht'
        trivial
  | write id file => exact .same h ⟨rfl, rfl⟩ (by simpa [locked] using ht)
  | delete owner name since => exact .same h ⟨rfl, rfl⟩ (by simp [locked, Task.Names])

/-- What holds of ids and names in every state. -/
structure Known (s : Sys W P) : Prop where
  distinct : s.reg.Distinct
  names : ∀ c ∈ s.calls, ∀ t ∈ c.tasks, t.Names s.reg

namespace Known

theorem start {reg : CollectorRegistry W} (h : reg.Distinct) (metrics : ℕ → ReceiverMetrics)
    (disk : P → Option (DiskFile W)) : Known (Sys.start reg metrics disk) :=
  ⟨h, by simp [Sys.start]⟩

/-- A write finds its collector armed where its file was prepared for. -/
theorem live_of_any (h : Known s) {id : ℕ} {file : PersistedCollector W} {rest : List (Task W)} {g : Hold P}
    (hc : (⟨.write id file :: rest, g⟩ : Call W P) ∈ s.calls) :
    (s.reg.entries.any fun e => e.id == id && e.owner.text == file.owner) = true ↔
      ∃ o, file.owner = o.text ∧ (id, o, file.name) ∈ s.reg.keys := by
  have hn := (h.names _ hc _ List.mem_cons_self).2
  simp only [List.any_eq_true, Bool.and_eq_true, beq_iff_eq]
  refine ⟨fun ⟨e, he, h1, h2⟩ => ⟨e.owner, h2.symm, ?_⟩, fun ⟨o, ho, hk⟩ => ?_⟩
  · rw [← hn e.owner e.name (h1 ▸ key_mem he)]
    exact h1 ▸ key_mem he
  · obtain ⟨e, he, h1, h2, _⟩ := mem_keys.mp hk
    exact ⟨e, he, h1, by rw [h2, ho]⟩

variable [DecidableEq P] {path : String → String → P}

theorem step (h : Known s) {a : Action Span} (hs : s.step path env a = some s') : Known s' := by
  rcases step_cases path hs with ⟨req, _, rfl⟩ | ⟨i, ok, c, _, hi, hstep⟩ | ⟨m, k, t, _, rfl⟩ | ⟨d, sp, _, rfl⟩
  · refine ⟨h.distinct, fun c hc t ht => ?_⟩
    rcases List.mem_append.mp hc with hc | hc
    · exact h.names c hc t ht
    · obtain rfl := List.mem_singleton.mp hc
      obtain rfl := List.mem_singleton.mp ht
      cases req <;> trivial
  · have hmem := List.mem_of_getElem? hi
    rcases hstep.locked_or_quiet with ⟨t, rest, rfl, _, hreg, hcalls⟩ | ⟨hreg, c', hcalls, htasks⟩
    · have hl := locked_known env h.distinct t (h.names _ hmem t List.mem_cons_self)
      refine ⟨hreg ▸ hl.distinct, ?_⟩
      rw [hcalls, hreg]
      refine forall_set (fun d hd t' ht' => (h.names d hd t' ht').follows hl.follows) fun t' ht' => ?_
      rcases List.mem_append.mp ht' with ht' | ht'
      · exact hl.names t' ht'
      · exact (h.names _ hmem t' (List.mem_cons_of_mem _ ht')).follows hl.follows
    · refine ⟨hreg ▸ h.distinct, ?_⟩
      rw [hcalls, hreg]
      exact forall_set h.names fun t ht => h.names c hmem t (htasks t ht)
  · exact ⟨h.distinct, h.names⟩
  · have hk := keys_ingestSpan (r := s.reg) env d sp
    exact ⟨h.distinct.of_eq hk, fun c hc t ht => (h.names c hc t ht).follows (.of_eq hk)⟩

end Known

end Sys

end Logmon
