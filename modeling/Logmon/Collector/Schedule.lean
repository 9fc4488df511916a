/-
# Whether the files describe what is armed

The ledger orders a collector's saves by when they start, not by when their
files were prepared, so two calls that cross leave an older image behind: of
two edits checked together, one applied last has its file overwritten by the
other's (`files_diverge`). Three crossings do this: a file saved after one
that was prepared later, a snapshot filed between an edit's check and its
application, and edits applied in another order than they were saved in.

`Schedule` keeps when each call prepared and saved its file, and
`Sys.onSchedule` asks of a step that it makes none of these crossings. Runs
without one end with every file describing its collector (`files_describe`).

Key definitions: `Schedule`, `Schedule.note`, `Sys.onSchedule`, `Sys.Section`,
`Sys.Timed`, `Sys.Scheduled`.
Key theorems: `Sys.section_of_locked`, `Sys.Timed.aside`,
`Sys.Scheduled.locked`, `Sys.Scheduled.save`, `Sys.Durable.step`,
`files_describe`, `files_diverge`.
-/
import Logmon.Collector.Durable

namespace Logmon

open Lib CollectorRegistry

variable {W Span P : Type}

/-! ### The schedule -/

/-- The calls of a run: collectors are armed, edited, snapshotted and reset,
and every save succeeds. -/
def Sys.Action.keeping : Sys.Action Span → Bool
  | .call (.remove _ _) => false
  | .call (.lifecycle _) => false
  | .step _ ok => ok
  | _ => true

/-- When each call prepared its file and when it saved it; of a collector's
saved files, when the last prepared was; and of the edits applied to it, when
the last saved was. -/
structure Schedule where
  now : ℕ
  prepared : ℕ → ℕ
  saved : ℕ → ℕ
  latest : ℕ → ℕ
  applied : ℕ → ℕ

namespace Schedule

def start : Schedule := ⟨1, fun _ => 0, fun _ => 0, fun _ => 0, fun _ => 0⟩

def tick (o : Schedule) : Schedule := { o with now := o.now + 1 }

/-- Call `i` prepares its file. -/
def prepares (o : Schedule) (i : ℕ) : Schedule := { o with now := o.now + 1, prepared := Function.update o.prepared i o.now }

/-- Call `i` saves its file of the collector `id`. -/
def saves (o : Schedule) (i id : ℕ) : Schedule :=
  { o with
    now := o.now + 1
    saved := Function.update o.saved i o.now
    latest := Function.update o.latest id (max (o.latest id) (o.prepared i)) }

/-- Call `i` applies its edit of the collector `id`. -/
def applies (o : Schedule) (i id : ℕ) : Schedule :=
  { o with now := o.now + 1, applied := Function.update o.applied id (max (o.applied id) (o.saved i)) }

/-- What an action adds. -/
def note (s : Sys W P) (o : Schedule) : Sys.Action Span → Schedule
  | .step i _ =>
    match s.calls[i]? with
    | some ⟨.add _ _ _ _ _ :: _, .none⟩ | some ⟨.editCheck _ _ _ _ _ :: _, .none⟩
    | some ⟨.snapshotFile _ :: _, .none⟩ => o.prepares i
    | some ⟨.write id _ :: _, .stamped _ _⟩ => o.saves i id
    | some ⟨.editApply p :: _, .none⟩ => o.applies i p.id
    | _ => o.tick
  | _ => o.tick

variable {s : Sys W P} {o : Schedule} {a : Sys.Action Span} {i : ℕ} {ok : Bool}

theorem note_now : (o.note s a).now = o.now + 1 := by
  unfold note
  split
  · split <;> rfl
  · rfl

/-- An action marks the call that takes the step, and no other. -/
theorem note_marks {k : ℕ} (hk : ∀ ok, a ≠ .step k ok) :
    (o.note s a).prepared k = o.prepared k ∧ (o.note s a).saved k = o.saved k := by
  unfold note
  split
  · rename_i i ok
    have hne : k ≠ i := by
      rintro rfl
      exact hk ok rfl
    split <;> simp [prepares, saves, applies, tick, hne]
  · exact ⟨rfl, rfl⟩

theorem note_clock (h : ∀ i, o.prepared i < o.now ∧ o.saved i < o.now) (k : ℕ) :
    (o.note s a).prepared k < (o.note s a).now ∧ (o.note s a).saved k < (o.note s a).now := by
  rw [note_now]
  have hk := h k
  unfold note
  split
  · split <;> simp only [prepares, saves, applies, tick, Function.update_apply] <;> constructor <;> (try split) <;> omega
  · exact ⟨by show o.prepared k < _; omega, by show o.saved k < _; omega⟩

end Schedule

/-- The collector a job is about. -/
def Task.about : Task W → Option ℕ
  | .write id _ => some id
  | .editApply p => some p.id
  | .snapshotFile t => some t.id
  | _ => none

/-- The call has an edit of the collector still to apply. -/
def Call.edits (id : ℕ) (c : Call W P) : Bool :=
  c.tasks.any fun t => match t with
    | .editApply p => p.id == id
    | _ => false

/-- No step of a run makes a crossing: a file other than an edit's is saved
before any that was prepared later, a snapshot is filed while no edit of its
collector is between check and application, edits are applied in the order in
which they were saved, and a collector is armed on a path of its own. -/
def Sys.onSchedule [DecidableEq P] (path : String → String → P) (s : Sys W P) (o : Schedule) : Sys.Action Span → Bool
  | .step i _ =>
    match s.calls[i]? with
    | some ⟨.add owner _ _ defn _ :: _, .none⟩ => s.reg.entries.all fun e =>
        path e.owner.text e.name != path owner.text defn.name || e.isNamed owner defn.name
    | some ⟨.snapshotFile t :: _, .none⟩ => s.calls.all fun c => !c.edits t.id
    | some ⟨.write id file :: rest, .stamped l n⟩ =>
        (⟨.write id file :: rest, .stamped l n⟩ : Call W P).edits id || o.latest id ≤ o.prepared i
    | some ⟨.editApply p :: _, .none⟩ => o.applied p.id ≤ o.saved i
    | _ => true
  | _ => true

/-! ### What a section does -/

namespace Sys

variable {env : CollectorEnv W Span} {s s' : Sys W P} {o o' : Schedule} {x im : ℕ} {path : String → String → P}

theorem persistedWith_same {e e' : Entry W} (h : e.SameImage e') (defn : CollectorDef) (d : DomainId) :
    e'.persistedWith defn d = e.persistedWith defn d := by
  have himage := h.2
  simp only [Entry.toPersisted, Entry.persistedWith, PersistedCollector.mk.injEq] at himage ⊢
  obtain ⟨-, -, howner, -, -, -, -, -, -, -, harmed, hsnaps, hnext, hevicted⟩ := himage
  exact ⟨trivial, trivial, howner, trivial, trivial, trivial, trivial, trivial, trivial, trivial, harmed, hsnaps, hnext, hevicted⟩

/-- An applied edit leaves what another edit of the collector would write. -/
theorem agrees_after {loss : ℕ → TraceIngestLoss} {p : PendingEdit W} {e : Entry W} {f : PersistedCollector W}
    {defn : CollectorDef} {d : DomainId} (h : f.Agrees (e.persistedWith defn d)) :
    f.Agrees ((edited env loss p e).persistedWith defn d) := by
  have himage : (edited env loss p e).persistedWith defn d =
      { e.persistedWith defn d with armedAt := (edited env loss p e).collector.armedAt } := by
    simp [Entry.persistedWith]
  rw [himage]
  unfold PersistedCollector.Agrees at h ⊢
  rw [← h]

/-- All the sections of such a run: the collectors after it, and what the call
then has to do. -/
inductive Section (env : CollectorEnv W Span) (s : Sys W P) : Task W → CollectorRegistry W → List (Task W) → Prop
  | idle {t : Task W} {r : CollectorRegistry W} : (∀ p, t ≠ .editApply p) → (∀ tk, t ≠ .snapshotFile tk) →
      (∀ e' ∈ r.entries, ∃ e ∈ s.reg.entries, e.SameImage e') → Section env s t r []
  | armed {owner : SessionName} {domain : DomainId} {metrics : ℕ} {defn : CollectorDef} {now : ℤ}
      {r : CollectorRegistry W} {e : Entry W} : e.id = s.reg.nextId → r.entries = s.reg.entries ++ [e] →
      Section env s (.add owner domain metrics defn now) r [.write e.id e.toPersisted]
  | checked {owner : SessionName} {name : String} {change : CollectorEdit} {newMetrics : Option ℕ} {now : ℤ}
      {p : PendingEdit W} {e : Entry W} : e ∈ s.reg.entries → p.id = e.id → p.file = e.persistedWith p.defn p.targetDomain →
      Section env s (.editCheck owner name change newMetrics now) s.reg [.write p.id p.file, .editApply p]
  | applied {p : PendingEdit W} {r : CollectorRegistry W} :
      (∀ e' ∈ r.entries, (∃ e ∈ s.reg.entries, e.id = p.id ∧ e' = edited env s.loss p e) ∨ e' ∈ s.reg.entries ∧ e'.id ≠ p.id) →
      Section env s (.editApply p) r []
  | taken {owner : SessionName} {req : SnapshotRequest} {tk : TakenSnapshot W} {r : CollectorRegistry W} :
      (∀ e' ∈ r.entries, e'.id = tk.id ∨ e' ∈ s.reg.entries) → Section env s (.snapshotTake owner req) r [.snapshotFile tk]
  | filed {tk : TakenSnapshot W} {r : CollectorRegistry W} {f : PersistedCollector W} :
      (∀ e' ∈ r.entries, e'.id = tk.id ∧ e'.toPersisted = f ∨ e' ∈ s.reg.entries ∧ e'.id ≠ tk.id) →
      Section env s (.snapshotFile tk) r [.write tk.id f]

theorem section_of_locked (hd : s.reg.Distinct) {t : Task W} (ht : t.Sound s.reg) (hjob : jobPath path t = none) :
    Section env s t (s.locked env t).1 (s.locked env t).2 := by
  have hkept : ∀ e' ∈ s.reg.entries, ∃ e ∈ s.reg.entries, e.SameImage e' := fun e' he' => ⟨e', he', rfl, rfl⟩
  cases t with
  | add owner domain metrics defn now =>
    simp only [locked]
    split
    · exact .idle (by simp) (by simp) hkept
    · rename_i r e hadd
      obtain ⟨_, _, hid, _, _⟩ := keys_add hadd
      obtain ⟨_, _, _, hr⟩ := add_ok hadd
      exact .armed hid (congrArg CollectorRegistry.entries hr)
  | editCheck owner name change newMetrics now =>
    simp only [locked]
    split
    · exact .idle (by simp) (by simp) hkept
    · rename_i p hp
      obtain ⟨e, hc⟩ := editCheck_ok hp
      exact .checked (find?_mem hc.found).1 hc.id hc.file
  | editApply p =>
    obtain ⟨e0, he0, hid0, howner0, _⟩ := mem_keys.mp ht
    simp only [locked]
    split
    · rename_i hfail
      unfold editApply at hfail
      split at hfail
      · rename_i hnone
        have := List.find?_eq_none.mp hnone e0 he0
        simp [Entry.isHeld, hid0, howner0] at this
      · simp at hfail
    · rename_i r out happly
      obtain ⟨e, he, hr⟩ := editApply_ok happly
      obtain ⟨hmem, hheld⟩ := find?_mem he
      have hid := (Entry.isHeld_iff.mp hheld).1
      refine .applied fun e' he' => ?_
      rw [show CollectorRegistry.entries _ = _ from congrArg CollectorRegistry.entries hr] at he'
      rcases hd.mem_modifyFirst he he' with rfl | ⟨he', hne⟩
      · exact .inl ⟨e, hmem, hid, rfl⟩
      · exact .inr ⟨he', fun h => hne (h.trans hid.symm)⟩
  | snapshotTake owner req =>
    simp only [locked]
    split
    · exact .idle (by simp) (by simp) hkept
    · rename_i r t htake
      obtain ⟨e, label, hist, he, _, htaken, hr⟩ := snapshotTake_ok htake
      have hid : t.id = e.id := by rw [htaken]
      refine .taken fun e' he' => ?_
      rw [show CollectorRegistry.entries _ = _ from congrArg CollectorRegistry.entries hr] at he'
      rcases hd.mem_modifyFirst he he' with rfl | ⟨he', _⟩
      · exact .inl (by simp [hid])
      · exact .inr he'
  | snapshotFile t =>
    obtain ⟨o, n, hk⟩ := ht
    obtain ⟨e0, he0, hid0, _, _⟩ := mem_keys.mp hk
    obtain ⟨e, he⟩ : ∃ e, s.reg.entries.find? (fun e => e.id == t.id) = some e :=
      Option.isSome_iff_exists.mp (List.find?_isSome.mpr ⟨e0, he0, by simpa using hid0⟩)
    have hid : e.id = t.id := by simpa using (find?_mem he).2
    have hfile : s.reg.snapshotFile t =
        ({ s.reg with entries := modifyFirst (fun e => e.id == t.id) (filed t.snap) s.reg.entries },
          some (filed t.snap e).toPersisted) := by
      unfold snapshotFile
      rw [he]
    simp only [locked, hfile]
    refine .filed fun e' he' => ?_
    rcases hd.mem_modifyFirst he he' with rfl | ⟨he', hne⟩
    · exact .inl ⟨hid, rfl⟩
    · exact .inr ⟨he', fun h => hne (h.trans hid.symm)⟩
  | reset owner name now =>
    simp only [locked]
    split
    · exact .idle (by simp) (by simp) hkept
    · rename_i r v hreset
      obtain ⟨e, he, hr⟩ := reset_ok hreset
      refine .idle (by simp) (by simp) fun e' he' => ?_
      rw [show CollectorRegistry.entries _ = _ from congrArg CollectorRegistry.entries hr] at he'
      rcases hd.mem_modifyFirst he he' with rfl | ⟨he', _⟩
      · exact ⟨e, (find?_mem he).1, rfl, rfl⟩
      · exact ⟨e', he', rfl, rfl⟩
  | write id file => cases hjob
  | remove _ _ => exact ht.elim
  | lifecycle _ _ => exact ht.elim
  | rewrite _ _ _ _ => exact ht.elim
  | delete _ _ _ => exact ht.elim

/-! ### Along a run -/

/-- What the calls have to do, call by call. -/
def jobs (s : Sys W P) : List (List (Task W)) := s.calls.map Call.tasks

theorem jobs_set {i : ℕ} {c : Call W P} (h : s'.calls = s.calls.set i c) : s'.jobs = s.jobs.set i c.tasks := by
  unfold jobs
  rw [h, List.map_set]

theorem jobs_get {i : ℕ} {c : Call W P} (h : s.calls[i]? = some c) : s.jobs[i]? = some c.tasks := by
  unfold jobs
  rw [List.getElem?_map, h]
  rfl

/-- What a call of such a run has to do, at any time. -/
inductive Shape : List (Task W) → Prop
  | done : Shape []
  | asked {t : Task W} : t.about = none → Shape [t]
  | filing {tk : TakenSnapshot W} : Shape [.snapshotFile tk]
  | saving {id : ℕ} {file : PersistedCollector W} : Shape [.write id file]
  | editing {p : PendingEdit W} : Shape [.write p.id p.file, .editApply p]
  | applying {p : PendingEdit W} : Shape [.editApply p]

/-- Call `i` is between its edit's check and its application. -/
def Editing (s : Sys W P) (i : ℕ) (p : PendingEdit W) : Prop :=
  s.jobs[i]? = some [.write p.id p.file, .editApply p] ∨ s.jobs[i]? = some [.editApply p]

/-- A snapshot of the collector is taken and will be filed. -/
def Filing (s : Sys W P) (x : ℕ) : Prop := ∃ (j : ℕ) (tk : TakenSnapshot W), s.jobs[j]? = some [.snapshotFile tk] ∧ tk.id = x

/-- What holds of the collector `x`, whose file was last prepared at `im` of
all that describe it. A file to be saved, other than an edit's, was prepared
before then or describes it. One that comes before a pending edit's was
prepared before the edit's; and until the edit is applied its file stands on
disk, unless one saved later is to be applied or was. -/
structure Timed (path : String → String → P) (s : Sys W P) (o : Schedule) (x im : ℕ) : Prop where
  clock : im < o.now
  image : ∀ (i : ℕ) (file : PersistedCollector W), s.jobs[i]? = some [.write x file] → o.prepared i ≤ im ∧
    (o.prepared i = im → ∀ e ∈ s.reg.entries, e.id = x → file.Agrees e.toPersisted)
  after : ∀ (i : ℕ) (p : PendingEdit W), s.Editing i p → p.id = x → ∀ (j : ℕ) (file : PersistedCollector W),
    s.jobs[j]? = some [.write x file] → o.prepared j < o.prepared i
  base : ∀ (i : ℕ) (p : PendingEdit W), s.Editing i p → p.id = x → ∀ e ∈ s.reg.entries, e.id = x →
    p.file.Agrees (e.persistedWith p.defn p.targetDomain) ∨ s.Filing x
  counted : ∀ (i : ℕ) (p : PendingEdit W), s.jobs[i]? = some [.editApply p] → p.id = x → o.prepared i ≤ o.latest x
  stands : ∀ (i : ℕ) (p : PendingEdit W), s.jobs[i]? = some [.editApply p] → p.id = x →
    (s.disk (path p.owner.text p.defn.name)).map DiskFile.file = some p.file ∨
      (∃ (j : ℕ) (q : PendingEdit W), s.jobs[j]? = some [.editApply q] ∧ q.id = x ∧ o.saved i < o.saved j) ∨
      o.saved i < o.applied x
  newest : ∀ e ∈ s.reg.entries, e.id = x → im ≤ o.latest x ∨ s.Filing x ∨
    ∃ (j : ℕ) (file : PersistedCollector W), s.jobs[j]? = some [.write x file] ∧ o.prepared j = im

/-- What holds of the schedule in every state of such a run. -/
structure Scheduled (path : String → String → P) (s : Sys W P) (o : Schedule) : Prop where
  clock : ∀ i, o.prepared i < o.now ∧ o.saved i < o.now
  shape : ∀ ts ∈ s.jobs, Shape ts
  timed : ∀ x, ∃ im, Timed path s o x im

/-- A step that is not about the collector: neither it nor its file changes,
and the calls that have work for it are the same. -/
structure Aside (path : String → String → P) (s s' : Sys W P) (o o' : Schedule) (x : ℕ) : Prop where
  now : o.now ≤ o'.now
  entries : ∀ e' ∈ s'.reg.entries, e'.id = x → ∃ e ∈ s.reg.entries, e.SameImage e'
  disk : ∀ n m, (x, n, m) ∈ s.reg.keys → s'.disk (path n.text m) = s.disk (path n.text m)
  latest : o'.latest x = o.latest x
  applied : o'.applied x = o.applied x
  jobs : ∀ (k : ℕ) (ts : List (Task W)), (∃ t ∈ ts, t.about = some x) → (s'.jobs[k]? = some ts ↔ s.jobs[k]? = some ts)
  marks : ∀ (k : ℕ) (ts : List (Task W)), (∃ t ∈ ts, t.about = some x) → s.jobs[k]? = some ts →
    o'.prepared k = o.prepared k ∧ o'.saved k = o.saved k

theorem Editing.about {i : ℕ} {p : PendingEdit W} (h : s.Editing i p) :
    ∃ ts, s.jobs[i]? = some ts ∧ ∃ t ∈ ts, t.about = some p.id := by
  rcases h with h | h
  · exact ⟨_, h, _, List.mem_cons_self, rfl⟩
  · exact ⟨_, h, _, List.mem_cons_self, rfl⟩

theorem Editing.call {i : ℕ} {p : PendingEdit W} (h : s.Editing i p) : ∃ c ∈ s.calls, .editApply p ∈ c.tasks := by
  unfold Editing jobs at h
  simp only [List.getElem?_map, Option.map_eq_some_iff] at h
  rcases h with ⟨c, hc, htasks⟩ | ⟨c, hc, htasks⟩ <;> exact ⟨c, List.mem_of_getElem? hc, by simp [htasks]⟩

/-- A step aside of the collector keeps what holds of it. -/
theorem Timed.aside (h : Timed path s o x im) (hs : Aside path s s' o o' x)
    (hkey : ∀ (i : ℕ) (p : PendingEdit W), s.jobs[i]? = some [.editApply p] → (p.id, p.owner, p.defn.name) ∈ s.reg.keys) :
    Timed path s' o' x im := by
  have hwrite : ∀ (j : ℕ) (file : PersistedCollector W), s'.jobs[j]? = some [.write x file] ↔ s.jobs[j]? = some [.write x file] :=
    fun j file => hs.jobs j _ ⟨_, List.mem_cons_self, rfl⟩
  have happly : ∀ (j : ℕ) (p : PendingEdit W), p.id = x → (s'.jobs[j]? = some [.editApply p] ↔ s.jobs[j]? = some [.editApply p]) :=
    fun j p hp => hs.jobs j _ ⟨_, List.mem_cons_self, congrArg some hp⟩
  have hedit : ∀ (j : ℕ) (p : PendingEdit W), p.id = x → (s'.Editing j p ↔ s.Editing j p) := fun j p hp =>
    or_congr (hs.jobs j _ ⟨_, List.mem_cons_self, congrArg some hp⟩) (happly j p hp)
  have hfiling : s.Filing x → s'.Filing x := by
    rintro ⟨j, tk, hj, htk⟩
    exact ⟨j, tk, (hs.jobs j _ ⟨.snapshotFile tk, List.mem_cons_self, congrArg some htk⟩).mpr hj, htk⟩
  have hwmark : ∀ {j : ℕ} {file : PersistedCollector W}, s.jobs[j]? = some [.write x file] → o'.prepared j = o.prepared j :=
    fun hj => (hs.marks _ _ ⟨_, List.mem_cons_self, rfl⟩ hj).1
  have hemark : ∀ {j : ℕ} {p : PendingEdit W}, p.id = x → s.Editing j p → o'.prepared j = o.prepared j ∧ o'.saved j = o.saved j := by
    intro j p hp hj
    obtain ⟨ts, hts, t, ht, habout⟩ := hj.about
    exact hs.marks j ts ⟨t, ht, hp ▸ habout⟩ hts
  refine ⟨h.clock.trans_le hs.now, fun i file hi => ?_, fun i p hi hp j file hj => ?_, fun i p hi hp e' he' hid => ?_,
    fun i p hi hp => ?_, fun i p hi hp => ?_, fun e' he' hid => ?_⟩
  · rw [hwrite] at hi
    rw [hwmark hi]
    refine ⟨(h.image i file hi).1, fun heq e' he' hid => ?_⟩
    obtain ⟨e, he, hsame⟩ := hs.entries e' he' hid
    rw [hsame.2]
    exact (h.image i file hi).2 heq e he (hsame.1.symm.trans hid)
  · rw [hedit i p hp] at hi
    rw [hwrite] at hj
    rw [hwmark hj, (hemark hp hi).1]
    exact h.after i p hi hp j file hj
  · rw [hedit i p hp] at hi
    obtain ⟨e, he, hsame⟩ := hs.entries e' he' hid
    rw [persistedWith_same hsame]
    exact (h.base i p hi hp e he (hsame.1.symm.trans hid)).imp_right hfiling
  · rw [happly i p hp] at hi
    rw [(hemark hp (.inr hi)).1, hs.latest]
    exact h.counted i p hi hp
  · rw [happly i p hp] at hi
    rw [(hemark hp (.inr hi)).2, hs.applied, hs.disk _ _ (hp ▸ hkey i p hi)]
    refine (h.stands i p hi hp).imp_right (Or.imp_left ?_)
    rintro ⟨j, q, hj, hq, hlt⟩
    refine ⟨j, q, (happly j q hq).mpr hj, hq, ?_⟩
    rw [(hemark hq (.inr hj)).2]
    exact hlt
  · obtain ⟨e, he, hsame⟩ := hs.entries e' he' hid
    rw [hs.latest]
    refine (h.newest e he (hsame.1.symm.trans hid)).imp_right (Or.imp hfiling ?_)
    rintro ⟨j, file, hj, hprep⟩
    exact ⟨j, file, (hwrite j file).mpr hj, by rw [hwmark hj, hprep]⟩

/-- A step of call `i`, which has no work for the collector before or after. -/
theorem Aside.set {i : ℕ} {ts ts' : List (Task W)} (hi : s.jobs[i]? = some ts) (hset : s'.jobs = s.jobs.set i ts')
    (hts : ∀ t ∈ ts, t.about ≠ some x) (hts' : ∀ t ∈ ts', t.about ≠ some x) (hnow : o.now ≤ o'.now)
    (hmarks : ∀ k, k ≠ i → o'.prepared k = o.prepared k ∧ o'.saved k = o.saved k)
    (hlatest : o'.latest x = o.latest x) (happlied : o'.applied x = o.applied x)
    (hentries : ∀ e' ∈ s'.reg.entries, e'.id = x → ∃ e ∈ s.reg.entries, e.SameImage e')
    (hdisk : ∀ n m, (x, n, m) ∈ s.reg.keys → s'.disk (path n.text m) = s.disk (path n.text m)) :
    Aside path s s' o o' x := by
  refine ⟨hnow, hentries, hdisk, hlatest, happlied, fun k us hus => ?_, fun k us hus hk => hmarks k ?_⟩
  · obtain ⟨t, ht, habout⟩ := hus
    rw [hset]
    by_cases hk : k = i
    · subst hk
      rw [getElem?_set_self' hi, hi, Option.some.injEq, Option.some.injEq]
      refine ⟨?_, ?_⟩
      · rintro rfl
        exact absurd habout (hts' t ht)
      · rintro rfl
        exact absurd habout (hts t ht)
    · rw [List.getElem?_set_ne (Ne.symm hk)]
  · rintro rfl
    obtain ⟨t, ht, habout⟩ := hus
    rw [hi] at hk
    obtain rfl := Option.some.inj hk
    exact hts t ht habout

/-- What a call has to do, after the step of call `i`. -/
theorem jobs_after {i k : ℕ} {ts ts' us : List (Task W)} (hi : s.jobs[i]? = some ts) (hset : s'.jobs = s.jobs.set i ts')
    (hk : s'.jobs[k]? = some us) : k = i ∧ us = ts' ∨ k ≠ i ∧ s.jobs[k]? = some us := by
  rw [hset] at hk
  by_cases hki : k = i
  · subst hki
    rw [getElem?_set_self' hi] at hk
    exact .inl ⟨rfl, (Option.some.inj hk).symm⟩
  · rw [List.getElem?_set_ne (Ne.symm hki)] at hk
    exact .inr ⟨hki, hk⟩

theorem jobs_keep {i k : ℕ} {ts' us : List (Task W)} (hset : s'.jobs = s.jobs.set i ts') (hki : k ≠ i)
    (hk : s.jobs[k]? = some us) : s'.jobs[k]? = some us := by
  rw [hset, List.getElem?_set_ne (Ne.symm hki)]
  exact hk

theorem filing_keep {i : ℕ} {t : Task W} {rest ts' : List (Task W)} (hi : s.jobs[i]? = some (t :: rest))
    (hset : s'.jobs = s.jobs.set i ts') (ht : ∀ tk, t = .snapshotFile tk → tk.id ≠ x) (h : s.Filing x) : s'.Filing x := by
  obtain ⟨j, tk, hj, htk⟩ := h
  refine ⟨j, tk, jobs_keep hset ?_ hj, htk⟩
  rintro rfl
  rw [hi, Option.some.injEq, List.cons.injEq] at hj
  exact ht tk hj.1 htk

/-- A file of the collector as it is after the section is to be saved, and no
edit of it is to be applied. -/
theorem Timed.prepared (hclock : ∀ j, o.prepared j < o.now ∧ o.saved j < o.now) {i : ℕ} {ts : List (Task W)}
    {f : PersistedCollector W} (hi : s.jobs[i]? = some ts) (hset : s'.jobs = s.jobs.set i [.write x f])
    (hentries : ∀ e' ∈ s'.reg.entries, e'.id = x → e'.toPersisted = f)
    (hnone : ∀ (k : ℕ) (p : PendingEdit W), k ≠ i → s.Editing k p → p.id ≠ x) :
    Timed path s' (o.prepares i) x o.now := by
  have hedits : ∀ (k : ℕ) (p : PendingEdit W), s'.Editing k p → p.id ≠ x := by
    intro k p hk
    rcases hk with hk | hk
    · rcases jobs_after hi hset hk with ⟨-, h⟩ | ⟨hne, hk⟩
      · simp at h
      · exact hnone k p hne (.inl hk)
    · rcases jobs_after hi hset hk with ⟨-, h⟩ | ⟨hne, hk⟩
      · simp at h
      · exact hnone k p hne (.inr hk)
  have hself : (o.prepares i).prepared i = o.now := by simp [Schedule.prepares]
  refine ⟨Nat.lt_succ_self _, fun k file hk => ?_, fun k p hk hp => absurd hp (hedits k p hk),
    fun k p hk hp => absurd hp (hedits k p hk), fun k p hk hp => absurd hp (hedits k p (.inr hk)),
    fun k p hk hp => absurd hp (hedits k p (.inr hk)),
    fun e he hid => .inr (.inr ⟨i, f, by rw [hset, getElem?_set_self' hi], hself⟩)⟩
  rcases jobs_after hi hset hk with ⟨rfl, h⟩ | ⟨hne, -⟩
  · obtain rfl : file = f := by simpa using h
    refine ⟨hself.le, fun _ e he hid => ?_⟩
    rw [hentries e he hid]
    exact .refl _
  · have hlt : (o.prepares i).prepared k < o.now := by simpa [Schedule.prepares, hne] using (hclock k).1
    exact ⟨hlt.le, fun h => absurd h hlt.ne⟩

/-- An edit is checked: its file is of the collector as it is. -/
theorem Timed.checked {p : PendingEdit W} (h : Timed path s o p.id im)
    (hclock : ∀ j, o.prepared j < o.now ∧ o.saved j < o.now) {i : ℕ} {t : Task W} (hi : s.jobs[i]? = some [t])
    (ht : t.about = none) (hset : s'.jobs = s.jobs.set i [.write p.id p.file, .editApply p]) (hreg : s'.reg = s.reg)
    (hdisk : s'.disk = s.disk)
    (hbase : ∀ e ∈ s.reg.entries, e.id = p.id → p.file.Agrees (e.persistedWith p.defn p.targetDomain)) :
    Timed path s' (o.prepares i) p.id im := by
  have hother : ∀ {k : ℕ}, k ≠ i → (o.prepares i).prepared k = o.prepared k := fun hne => by simp [Schedule.prepares, hne]
  have hself : (o.prepares i).prepared i = o.now := by simp [Schedule.prepares]
  have hwrite : ∀ {k : ℕ} {file : PersistedCollector W}, s'.jobs[k]? = some [.write p.id file] →
      k ≠ i ∧ s.jobs[k]? = some [.write p.id file] := by
    intro k file hk
    rcases jobs_after hi hset hk with ⟨-, h⟩ | hk
    · simp at h
    · exact hk
  have happly : ∀ {k : ℕ} {q : PendingEdit W}, s'.jobs[k]? = some [.editApply q] → k ≠ i ∧ s.jobs[k]? = some [.editApply q] := by
    intro k q hk
    rcases jobs_after hi hset hk with ⟨-, h⟩ | hk
    · simp at h
    · exact hk
  have hedit : ∀ {k : ℕ} {q : PendingEdit W}, s'.Editing k q → k = i ∧ q = p ∨ k ≠ i ∧ s.Editing k q := by
    intro k q hk
    rcases hk with hk | hk
    · rcases jobs_after hi hset hk with ⟨rfl, h⟩ | ⟨hne, hk⟩
      · simp only [List.cons.injEq, Task.editApply.injEq] at h
        exact .inl ⟨rfl, h.2.1⟩
      · exact .inr ⟨hne, .inl hk⟩
    · exact .inr ⟨(happly hk).1, .inr (happly hk).2⟩
  have hfiling : s.Filing p.id → s'.Filing p.id := filing_keep hi hset (by rintro tk rfl; simp [Task.about] at ht)
  refine ⟨h.clock.trans (Nat.lt_succ_self _), fun k file hk => ?_, fun k q hk hq j file hj => ?_,
    fun k q hk hq e he hid => ?_, fun k q hk hq => ?_, fun k q hk hq => ?_, fun e he hid => ?_⟩
  · obtain ⟨hne, hk⟩ := hwrite hk
    rw [hother hne, hreg]
    exact h.image k file hk
  · obtain ⟨hjne, hj⟩ := hwrite hj
    rw [hother hjne]
    rcases hedit hk with ⟨rfl, rfl⟩ | ⟨hne, hk⟩
    · rw [hself]
      exact (hclock j).1
    · rw [hother hne]
      exact h.after k q hk hq j file hj
  · rw [hreg] at he
    rcases hedit hk with ⟨rfl, rfl⟩ | ⟨hne, hk⟩
    · exact .inl (hbase e he hid)
    · exact (h.base k q hk hq e he hid).imp_right hfiling
  · obtain ⟨hne, hk⟩ := happly hk
    rw [hother hne]
    exact h.counted k q hk hq
  · obtain ⟨hne, hk⟩ := happly hk
    rw [hdisk]
    refine (h.stands k q hk hq).imp_right (Or.imp_left ?_)
    rintro ⟨j, q', hj, hq', hlt⟩
    refine ⟨j, q', jobs_keep hset ?_ hj, hq', hlt⟩
    rintro rfl
    rw [hi] at hj
    obtain rfl : t = .editApply q' := by simpa using hj
    simp [Task.about] at ht
  · rw [hreg] at he
    refine (h.newest e he hid).imp_right (Or.imp hfiling ?_)
    rintro ⟨j, file, hj, hprep⟩
    have hne : j ≠ i := by
      rintro rfl
      rw [hi] at hj
      obtain rfl : t = .write p.id file := by simpa using hj
      simp [Task.about] at ht
    exact ⟨j, file, jobs_keep hset hne hj, by rw [hother hne, hprep]⟩

/-- An edit is applied, in the order of the saves. -/
theorem Timed.applied {p : PendingEdit W} (h : Timed path s o p.id im)
    (hclock : ∀ j, o.prepared j < o.now ∧ o.saved j < o.now) {i : ℕ} (hi : s.jobs[i]? = some [.editApply p])
    (hset : s'.jobs = s.jobs.set i []) (hdisk : s'.disk = s.disk)
    (hentries : ∀ e' ∈ s'.reg.entries, e'.id = p.id → ∃ e ∈ s.reg.entries, e.id = p.id ∧ e' = edited env s.loss p e) :
    Timed path s' (o.applies i p.id) p.id (o.prepared i) := by
  have hback : ∀ {k : ℕ} {t : Task W} {us : List (Task W)}, s'.jobs[k]? = some (t :: us) → k ≠ i ∧ s.jobs[k]? = some (t :: us) := by
    intro k t us hk
    rcases jobs_after hi hset hk with ⟨-, h⟩ | hk
    · simp at h
    · exact hk
  have hedit : ∀ {k : ℕ} {q : PendingEdit W}, s'.Editing k q → s.Editing k q := fun hk => hk.imp (fun h => (hback h).2) fun h => (hback h).2
  have hfiling : s.Filing p.id → s'.Filing p.id := filing_keep hi hset (by simp)
  have happlied : (o.applies i p.id).applied p.id = max (o.applied p.id) (o.saved i) := by simp [Schedule.applies]
  refine ⟨(hclock i).1.trans (Nat.lt_succ_self _), fun k file hk => ?_,
    fun k q hk hq j file hj => h.after k q (hedit hk) hq j file (hback hj).2, fun k q hk hq e' he' hid => ?_,
    fun k q hk hq => h.counted k q (hback hk).2 hq, fun k q hk hq => ?_, fun e he hid => .inl (h.counted i p hi rfl)⟩
  · have hlt := h.after i p (.inr hi) rfl k file (hback hk).2
    exact ⟨hlt.le, fun heq => absurd heq hlt.ne⟩
  · obtain ⟨e, he, heid, rfl⟩ := hentries e' he' hid
    exact (h.base k q (hedit hk) hq e he heid).imp agrees_after hfiling
  · rw [happlied, hdisk]
    rcases h.stands k q (hback hk).2 hq with hon | ⟨j, q', hj, hq', hlt⟩ | hlt
    · exact .inl hon
    · by_cases hji : j = i
      · subst hji
        exact .inr (.inr (hlt.trans_le (le_max_right _ _)))
      · exact .inr (.inl ⟨j, q', jobs_keep hset hji hj, hq', hlt⟩)
    · exact .inr (.inr (hlt.trans_le (le_max_left _ _)))

/-- A snapshot is taken, and will be filed. -/
theorem Timed.taken {tk : TakenSnapshot W} (h : Timed path s o tk.id im)
    (hclock : ∀ j, o.prepared j < o.now ∧ o.saved j < o.now) {i : ℕ} {t : Task W} (hi : s.jobs[i]? = some [t])
    (ht : t.about = none) (hset : s'.jobs = s.jobs.set i [.snapshotFile tk]) (hdisk : s'.disk = s.disk) :
    Timed path s' o.tick tk.id o.now := by
  have hfiling : s'.Filing tk.id := ⟨i, tk, by rw [hset, getElem?_set_self' hi], rfl⟩
  have hwrite : ∀ {k : ℕ} {file : PersistedCollector W}, s'.jobs[k]? = some [.write tk.id file] →
      s.jobs[k]? = some [.write tk.id file] := by
    intro k file hk
    rcases jobs_after hi hset hk with ⟨-, h⟩ | ⟨-, hk⟩
    · simp at h
    · exact hk
  have hedit : ∀ {k : ℕ} {q : PendingEdit W}, s'.Editing k q → s.Editing k q := by
    intro k q hk
    rcases hk with hk | hk
    · rcases jobs_after hi hset hk with ⟨-, h⟩ | ⟨-, hk⟩
      · simp at h
      · exact .inl hk
    · rcases jobs_after hi hset hk with ⟨-, h⟩ | ⟨-, hk⟩
      · simp at h
      · exact .inr hk
  have happly : ∀ {k : ℕ} {q : PendingEdit W}, s'.jobs[k]? = some [.editApply q] → s.jobs[k]? = some [.editApply q] := by
    intro k q hk
    rcases jobs_after hi hset hk with ⟨-, h⟩ | ⟨-, hk⟩
    · simp at h
    · exact hk
  refine ⟨Nat.lt_succ_self _, fun k file _ => ⟨(hclock k).1.le, fun h => absurd h (hclock k).1.ne⟩,
    fun k q hk hq j file hj => h.after k q (hedit hk) hq j file (hwrite hj), fun _ _ _ _ _ _ _ => .inr hfiling,
    fun k q hk hq => h.counted k q (happly hk) hq, fun k q hk hq => ?_, fun _ _ _ => .inr (.inl hfiling)⟩
  rw [hdisk]
  refine (h.stands k q (happly hk) hq).imp_right (Or.imp_left ?_)
  rintro ⟨j, q', hj, hq', hlt⟩
  refine ⟨j, q', jobs_keep hset ?_ hj, hq', hlt⟩
  rintro rfl
  rw [hi] at hj
  obtain rfl : t = .editApply q' := by simpa using hj
  simp [Task.about] at ht

/-- A file other than an edit's is saved, before any prepared later. -/
theorem Timed.saved {file : PersistedCollector W} (h : Timed path s o x im) {i : ℕ} (hi : s.jobs[i]? = some [.write x file])
    (hset : s'.jobs = s.jobs.set i []) (hreg : s'.reg = s.reg) (hgood : o.latest x ≤ o.prepared i) :
    Timed path s' (o.saves i x) x im := by
  have hback : ∀ {k : ℕ} {t : Task W} {us : List (Task W)}, s'.jobs[k]? = some (t :: us) → k ≠ i ∧ s.jobs[k]? = some (t :: us) := by
    intro k t us hk
    rcases jobs_after hi hset hk with ⟨-, h⟩ | hk
    · simp at h
    · exact hk
  have hedit : ∀ {k : ℕ} {q : PendingEdit W}, s'.Editing k q → s.Editing k q := fun hk => hk.imp (fun h => (hback h).2) fun h => (hback h).2
  have hfiling : s.Filing x → s'.Filing x := filing_keep hi hset (by simp)
  have hlatest : (o.saves i x).latest x = max (o.latest x) (o.prepared i) := by simp [Schedule.saves]
  -- the file of an edit still to be applied was prepared after this one
  have hedits : ∀ (k : ℕ) (q : PendingEdit W), s.jobs[k]? = some [.editApply q] → q.id ≠ x := fun k q hk hq =>
    absurd ((h.counted k q hk hq).trans hgood) (h.after k q (.inr hk) hq i file hi).not_ge
  refine ⟨h.clock.trans (Nat.lt_succ_self _), fun k f hk => ?_,
    fun k q hk hq j f hj => h.after k q (hedit hk) hq j f (hback hj).2, fun k q hk hq e he hid => ?_,
    fun k q hk hq => absurd hq (hedits k q (hback hk).2), fun k q hk hq => absurd hq (hedits k q (hback hk).2), fun e he hid => ?_⟩
  · rw [hreg]
    exact h.image k f (hback hk).2
  · rw [hreg] at he
    exact (h.base k q (hedit hk) hq e he hid).imp_right hfiling
  · rw [hreg] at he
    rw [hlatest]
    rcases h.newest e he hid with hle | hf | ⟨j, f, hj, hprep⟩
    · exact .inl (hle.trans (le_max_left _ _))
    · exact .inr (.inl (hfiling hf))
    · by_cases hji : j = i
      · subst hji
        exact .inl (hprep.symm.le.trans (le_max_right _ _))
      · exact .inr (.inr ⟨j, f, jobs_keep hset hji hj, hprep⟩)

/-- An edit's file is saved. -/
theorem Timed.savedEdit {p : PendingEdit W} (h : Timed path s o p.id im)
    (hclock : ∀ j, o.prepared j < o.now ∧ o.saved j < o.now) {i : ℕ}
    (hi : s.jobs[i]? = some [.write p.id p.file, .editApply p]) (hset : s'.jobs = s.jobs.set i [.editApply p])
    (hreg : s'.reg = s.reg) (hdisk : (s'.disk (path p.owner.text p.defn.name)).map DiskFile.file = some p.file) :
    Timed path s' (o.saves i p.id) p.id im := by
  have hself : s'.jobs[i]? = some [.editApply p] := by rw [hset, getElem?_set_self' hi]
  have hwrite : ∀ {k : ℕ} {file : PersistedCollector W}, s'.jobs[k]? = some [.write p.id file] →
      s.jobs[k]? = some [.write p.id file] := by
    intro k file hk
    rcases jobs_after hi hset hk with ⟨-, h⟩ | ⟨-, hk⟩
    · simp at h
    · exact hk
  have happly : ∀ {k : ℕ} {q : PendingEdit W}, s'.jobs[k]? = some [.editApply q] →
      k = i ∧ q = p ∨ k ≠ i ∧ s.jobs[k]? = some [.editApply q] := by
    intro k q hk
    exact (jobs_after hi hset hk).imp_left fun h => ⟨h.1, by simpa using h.2⟩
  have hedit : ∀ {k : ℕ} {q : PendingEdit W}, s'.Editing k q → s.Editing k q := by
    intro k q hk
    rcases hk with hk | hk
    · rcases jobs_after hi hset hk with ⟨-, h⟩ | ⟨-, hk⟩
      · simp at h
      · exact .inl hk
    · rcases happly hk with ⟨rfl, rfl⟩ | ⟨-, hk⟩
      · exact .inl hi
      · exact .inr hk
  have hfiling : s.Filing p.id → s'.Filing p.id := filing_keep hi hset (by simp)
  have hlatest : (o.saves i p.id).latest p.id = max (o.latest p.id) (o.prepared i) := by simp [Schedule.saves]
  have hsaved : (o.saves i p.id).saved i = o.now := by simp [Schedule.saves]
  have hother : ∀ {k : ℕ}, k ≠ i → (o.saves i p.id).saved k = o.saved k := fun hne => by simp [Schedule.saves, hne]
  refine ⟨h.clock.trans (Nat.lt_succ_self _), fun k f hk => ?_,
    fun k q hk hq j f hj => h.after k q (hedit hk) hq j f (hwrite hj), fun k q hk hq e he hid => ?_, fun k q hk hq => ?_,
    fun k q hk hq => ?_, fun e he hid => ?_⟩
  · rw [hreg]
    exact h.image k f (hwrite hk)
  · rw [hreg] at he
    exact (h.base k q (hedit hk) hq e he hid).imp_right hfiling
  · rw [hlatest]
    rcases happly hk with ⟨rfl, rfl⟩ | ⟨-, hk⟩
    · exact le_max_right _ _
    · exact (h.counted k q hk hq).trans (le_max_left _ _)
  · rcases happly hk with ⟨rfl, rfl⟩ | ⟨hne, hk⟩
    · exact .inl hdisk
    · -- this file was saved later, and its edit is to be applied
      refine .inr (.inl ⟨i, p, hself, rfl, ?_⟩)
      rw [hsaved, hother hne]
      exact (hclock k).2
  · rw [hreg] at he
    rw [hlatest]
    rcases h.newest e he hid with hle | hf | ⟨j, f, hj, hprep⟩
    · exact .inl (hle.trans (le_max_left _ _))
    · exact .inr (.inl (hfiling hf))
    · refine .inr (.inr ⟨j, f, jobs_keep hset ?_ hj, hprep⟩)
      rintro rfl
      rw [hi] at hj
      simp at hj

theorem Shape.alone {t : Task W} {rest : List (Task W)} (h : Shape (t :: rest)) (hjob : jobPath path t = none) : rest = [] := by
  cases h with
  | editing => simp [jobPath] at hjob
  | _ => rfl

/-- What follows a save: nothing, or the application of the edit it is of. -/
theorem Shape.of_write {id : ℕ} {file : PersistedCollector W} {rest : List (Task W)} (h : Shape (.write id file :: rest)) :
    rest = [] ∨ ∃ p, id = p.id ∧ file = p.file ∧ rest = [.editApply p] := by
  cases h with
  | asked habout => simp [Task.about] at habout
  | saving => exact .inl rfl
  | editing => exact .inr ⟨_, rfl, rfl, rfl⟩

theorem Section.shape {t : Task W} {r : CollectorRegistry W} {ts : List (Task W)} (h : Section env s t r ts) : Shape ts := by
  cases h with
  | idle => exact .done
  | armed => exact .saving
  | checked => exact .editing
  | applied => exact .done
  | taken => exact .filing
  | filed => exact .saving

/-- A job's collector is armed. -/
theorem about_known (hsound : ∀ c ∈ s.calls, ∀ t ∈ c.tasks, t.Sound s.reg) {k : ℕ} {ts : List (Task W)}
    (hk : s.jobs[k]? = some ts) {t : Task W} (ht : t ∈ ts) (habout : t.about = some x) : ∃ n m, (x, n, m) ∈ s.reg.keys := by
  unfold jobs at hk
  rw [List.getElem?_map, Option.map_eq_some_iff] at hk
  obtain ⟨c, hc, rfl⟩ := hk
  have h := hsound c (List.mem_of_getElem? hc) t ht
  cases t with
  | write id file =>
    obtain rfl := Option.some.inj habout
    obtain ⟨n, -, h⟩ := h
    exact ⟨n, _, h⟩
  | editApply p =>
    obtain rfl := Option.some.inj habout
    exact ⟨_, _, h⟩
  | snapshotFile tk =>
    obtain rfl := Option.some.inj habout
    exact h
  | _ => simp [Task.about] at habout

theorem apply_known (hsound : ∀ c ∈ s.calls, ∀ t ∈ c.tasks, t.Sound s.reg) {k : ℕ} {ts : List (Task W)}
    (hk : s.jobs[k]? = some ts) {p : PendingEdit W} (hp : .editApply p ∈ ts) : (p.id, p.owner, p.defn.name) ∈ s.reg.keys := by
  unfold jobs at hk
  rw [List.getElem?_map, Option.map_eq_some_iff] at hk
  obtain ⟨c, hc, rfl⟩ := hk
  exact hsound c (List.mem_of_getElem? hc) _ hp

variable (env) in
/-- A section keeps the schedule's invariant. -/
theorem Scheduled.locked [DecidableEq P] (h : Scheduled path s o) (hd : s.reg.Distinct)
    (hsound : ∀ c ∈ s.calls, ∀ t ∈ c.tasks, t.Sound s.reg) {i : ℕ} {ok : Bool} {t : Task W} {rest : List (Task W)}
    (hi : s.calls[i]? = some ⟨t :: rest, .none⟩) (hjob : jobPath path t = none)
    (hgood : s.onSchedule path o (.step i ok : Action Span) = true) (hreg : s'.reg = (s.locked env t).1)
    (hdisk : s'.disk = s.disk) (hcalls : s'.calls = s.calls.set i ⟨(s.locked env t).2 ++ rest, .none⟩) :
    Scheduled path s' (o.note s (.step i ok : Action Span)) := by
  have hmem := List.mem_of_getElem? hi
  have hjobs := jobs_get hi
  obtain rfl := (h.shape _ (List.mem_of_getElem? hjobs)).alone hjob
  have hset := jobs_set hcalls
  have hsec : Section env s t (s.locked env t).1 (s.locked env t).2 :=
    section_of_locked hd (hsound _ hmem t List.mem_cons_self) hjob
  rw [List.append_nil] at hset
  rw [← hreg] at hsec
  generalize (s.locked env t).2 = ts at hset hsec
  obtain ⟨r, hr⟩ : ∃ r, s'.reg = r := ⟨_, rfl⟩
  rw [hr] at hsec
  have hclock := h.clock
  refine ⟨Schedule.note_clock hclock, fun us hus => ?_, fun x => ?_⟩
  · rw [hset] at hus
    exact forall_set h.shape hsec.shape us hus
  obtain ⟨im, him⟩ := h.timed x
  -- the collectors the section is not about
  have haside : (t.about ≠ some x) → (∀ u ∈ ts, u.about ≠ some x) → (∀ p, t = .editApply p → p.id ≠ x) →
      (∀ e' ∈ r.entries, e'.id = x → ∃ e ∈ s.reg.entries, e.SameImage e') →
      Timed path s' (o.note s (.step i ok : Action Span)) x im := by
    intro hold hnew happly hentries
    refine him.aside (.set hjobs hset (by simpa using hold) hnew (by rw [Schedule.note_now]; omega)
      (fun k hk => Schedule.note_marks (by rintro ok h; injection h with h; exact hk h.symm)) ?_ ?_ (by rwa [hr])
      fun n m _ => by rw [hdisk]) fun k p hk => apply_known hsound hk (List.mem_singleton.mpr rfl)
    · cases t with
      | editApply p => simp [Schedule.note, hi, Schedule.applies]
      | _ => simp [Schedule.note, hi, Schedule.prepares, Schedule.tick]
    · cases t with
      | editApply p => simp [Schedule.note, hi, Schedule.applies, (happly p rfl).symm]
      | _ => simp [Schedule.note, hi, Schedule.prepares, Schedule.tick]
  cases hsec with
  | idle happly hfile hentries =>
    refine ⟨im, haside ?_ (by simp) (fun p hp => absurd hp (happly p)) fun e' he' _ => hentries e' he'⟩
    cases t with
    | write id file => simp [jobPath] at hjob
    | editApply p => exact absurd rfl (happly p)
    | snapshotFile tk => exact absurd rfl (hfile tk)
    | _ => simp [Task.about]
  | @armed owner domain metrics defn now _ e hid hentries =>
    by_cases hx : x = e.id
    · subst hx
      have hnote : o.note s (.step i ok : Action Span) = o.prepares i := by simp [Schedule.note, hi]
      have hnew : ∀ n m, (e.id, n, m) ∉ s.reg.keys := fun n m hk => absurd (hd.below _ _ _ hk) (by omega)
      refine ⟨o.now, hnote ▸ Timed.prepared hclock hjobs hset (fun e' he' hid' => ?_) fun k p _ hk => ?_⟩
      · rw [hr, hentries, List.mem_append, List.mem_singleton] at he'
        rcases he' with he' | rfl
        · exact absurd (hid' ▸ key_mem he') (hnew _ _)
        · rfl
      · obtain ⟨ts, hts, t, ht, habout⟩ := hk.about
        intro hp
        obtain ⟨n, m, hkey⟩ := about_known hsound hts ht (hp ▸ habout)
        exact hnew n m hkey
    · refine ⟨im, haside (by simp [Task.about]) (by simpa [Task.about] using Ne.symm hx) (by simp) fun e' he' hid' => ?_⟩
      rw [hentries, List.mem_append, List.mem_singleton] at he'
      rcases he' with he' | rfl
      · exact ⟨e', he', rfl, rfl⟩
      · exact absurd hid'.symm hx
  | @checked owner name change newMetrics now p e he hid hfile =>
    by_cases hx : x = p.id
    · subst hx
      have hnote : o.note s (.step i ok : Action Span) = o.prepares i := by simp [Schedule.note, hi]
      refine ⟨im, hnote ▸ him.checked hclock hjobs rfl hset hr hdisk fun e' he' hid' => ?_⟩
      rw [hfile, hd.unique he' he (hid'.trans hid)]
      exact .refl _
    · exact ⟨im, haside (by simp [Task.about]) (by simpa [Task.about] using Ne.symm hx) (by simp) fun e' he' _ => ⟨e', he', rfl, rfl⟩⟩
  | @applied p _ hentries =>
    by_cases hx : x = p.id
    · subst hx
      have hnote : o.note s (.step i ok : Action Span) = o.applies i p.id := by simp [Schedule.note, hi]
      have hedited : ∀ e' ∈ s'.reg.entries, e'.id = p.id →
          ∃ e ∈ s.reg.entries, e.id = p.id ∧ e' = edited env s.loss p e := fun e' he' hid' =>
        (hentries e' (hr ▸ he')).resolve_right fun h => h.2 hid'
      exact ⟨_, hnote ▸ him.applied hclock hjobs hset hdisk hedited⟩
    · refine ⟨im, haside (by simpa [Task.about] using Ne.symm hx) (by simp) (fun q hq => ?_) fun e' he' hid' => ?_⟩
      · injection hq with hq
        exact hq ▸ Ne.symm hx
      · rcases hentries e' he' with ⟨e, _, hid, rfl⟩ | ⟨he', -⟩
        · exact absurd (hid'.symm.trans (by simpa using hid)) hx
        · exact ⟨e', he', rfl, rfl⟩
  | @taken owner req tk _ hentries =>
    by_cases hx : x = tk.id
    · subst hx
      have hnote : o.note s (.step i ok : Action Span) = o.tick := by simp [Schedule.note, hi]
      exact ⟨_, hnote ▸ him.taken hclock hjobs rfl hset hdisk⟩
    · refine ⟨im, haside (by simp [Task.about]) (by simpa [Task.about] using Ne.symm hx) (by simp) fun e' he' hid' => ?_⟩
      rcases hentries e' he' with hid | he'
      · exact absurd (hid'.symm.trans hid) hx
      · exact ⟨e', he', rfl, rfl⟩
  | @filed tk _ f hentries =>
    by_cases hx : x = tk.id
    · subst hx
      have hnote : o.note s (.step i ok : Action Span) = o.prepares i := by simp [Schedule.note, hi]
      refine ⟨o.now, hnote ▸ Timed.prepared hclock hjobs hset (fun e' he' hid' => ?_) fun k p _ hk hp => ?_⟩
      · rw [hr] at he'
        exact ((hentries e' he').resolve_right fun h => h.2 hid').2
      · -- no edit of it is between check and application
        obtain ⟨c, hc, hp'⟩ := hk.call
        have hnone : ∀ c ∈ s.calls, c.edits tk.id = false := by simpa [onSchedule, hi] using hgood
        have := hnone c hc
        rw [Call.edits, List.any_eq_false] at this
        exact this _ hp' (by simpa using hp)
    · refine ⟨im, haside (by simpa [Task.about] using Ne.symm hx) (by simpa [Task.about] using Ne.symm hx) (by simp)
        fun e' he' hid' => ?_⟩
      rcases hentries e' he' with ⟨hid, -⟩ | ⟨he', -⟩
      · exact absurd (hid'.symm.trans hid) hx
      · exact ⟨e', he', rfl, rfl⟩

/-- A save keeps it too, in the order of the preparations. -/
theorem Scheduled.save [DecidableEq P] (h : Scheduled path s o) (hd : s.reg.Distinct) (hapart : s.reg.Apart path)
    (hsound : ∀ c ∈ s.calls, ∀ t ∈ c.tasks, t.Sound s.reg) {i id l stamp : ℕ} {ok : Bool} {file : PersistedCollector W}
    {rest : List (Task W)} (hi : s.calls[i]? = some ⟨.write id file :: rest, .stamped l stamp⟩)
    (hgood : s.onSchedule path o (.step i ok : Action Span) = true) (hreg : s'.reg = s.reg)
    (hdisk : s'.disk = Function.update s.disk (path file.owner file.name) (some ⟨id, file⟩))
    (hcalls : s'.calls = s.calls.set i ⟨rest, .leaving l⟩) :
    Scheduled path s' (o.note s (.step i ok : Action Span)) := by
  have hjobs := jobs_get hi
  have hset := jobs_set hcalls
  obtain ⟨n, hn, hkey⟩ := hsound _ (List.mem_of_getElem? hi) _ List.mem_cons_self
  have hnote : o.note s (.step i ok : Action Span) = o.saves i id := by simp [Schedule.note, hi]
  have hshape := h.shape _ (List.mem_of_getElem? hjobs)
  -- the other collectors' files have other paths
  have haside : ∀ x, x ≠ id → (∀ t ∈ rest, t.about ≠ some x) → ∀ im, Timed path s o x im →
      Timed path s' (o.saves i id) x im := by
    intro x hx hrest im him
    refine him.aside (.set hjobs hset (fun t ht => ?_) hrest (Nat.le_succ _) (fun k hk => ?_) ?_ rfl
      (fun e he _ => ⟨e, hreg ▸ he, rfl, rfl⟩) fun m k hm => ?_) fun k p hk => apply_known hsound hk (List.mem_singleton.mpr rfl)
    · rcases List.mem_cons.mp ht with rfl | ht
      · simpa [Task.about] using Ne.symm hx
      · exact hrest t ht
    · simp [Schedule.saves, hk]
    · simp [Schedule.saves, hx]
    · rw [hdisk, Function.update_of_ne]
      intro hp
      rw [hn] at hp
      exact hx (hapart _ hm _ hkey hp)
  rw [hnote]
  refine ⟨hnote ▸ Schedule.note_clock h.clock, fun us hus => ?_, fun x => ?_⟩
  · rw [hset] at hus
    refine forall_set h.shape ?_ us hus
    rcases hshape.of_write with rfl | ⟨p, rfl, rfl, rfl⟩
    · exact .done
    · exact .applying
  obtain ⟨im, him⟩ := h.timed x
  refine ⟨im, ?_⟩
  rcases hshape.of_write with rfl | ⟨p, rfl, rfl, rfl⟩
  · by_cases hx : x = id
    · subst hx
      refine him.saved hjobs hset hreg ?_
      simpa [onSchedule, hi, Call.edits] using hgood
    · exact haside x hx (by simp) im him
  · by_cases hx : x = p.id
    · subst hx
      refine him.savedEdit h.clock hjobs hset hreg ?_
      have happly := apply_known hsound hjobs (List.mem_cons_of_mem _ (List.mem_singleton.mpr rfl))
      obtain ⟨e, he, hid, howner, hname⟩ := mem_keys.mp hkey
      obtain ⟨e', he', hid', howner', hname'⟩ := mem_keys.mp happly
      obtain rfl := hd.unique he he' (hid.trans hid'.symm)
      rw [hdisk, hn, ← howner, ← hname, ← howner', ← hname', Function.update_self]
      rfl
    · exact haside x hx (by simpa [Task.about] using Ne.symm hx) im him

/-- What changes no job, file or collector is aside of every collector. -/
theorem Scheduled.quiet (h : Scheduled path s o) (hsound : ∀ c ∈ s.calls, ∀ t ∈ c.tasks, t.Sound s.reg)
    (hjobs : s'.jobs = s.jobs) (hdisk : s'.disk = s.disk)
    (hentries : ∀ e' ∈ s'.reg.entries, ∃ e ∈ s.reg.entries, e.SameImage e') : Scheduled path s' o.tick := by
  refine ⟨fun k => ⟨(h.clock k).1.trans (Nat.lt_succ_self _), (h.clock k).2.trans (Nat.lt_succ_self _)⟩, hjobs ▸ h.shape,
    fun x => ?_⟩
  obtain ⟨im, him⟩ := h.timed x
  refine ⟨im, him.aside ⟨Nat.le_succ _, fun e' he' _ => hentries e' he', fun n m _ => by rw [hdisk], rfl, rfl,
    fun k ts _ => by rw [hjobs], fun k ts _ _ => ⟨rfl, rfl⟩⟩ fun k p hk => apply_known hsound hk (List.mem_singleton.mpr rfl)⟩

/-- A call of such a run begins. -/
theorem Scheduled.asked (h : Scheduled path s o) (hsound : ∀ c ∈ s.calls, ∀ t ∈ c.tasks, t.Sound s.reg) {req : Request}
    (hreg : s'.reg = s.reg) (hdisk : s'.disk = s.disk) (hcalls : s'.calls = s.calls ++ [⟨[req.task], .none⟩]) :
    Scheduled path s' o.tick := by
  have hjobs : s'.jobs = s.jobs ++ [[req.task]] := by simp [jobs, hcalls]
  have habout : (req.task : Task W).about = none := by cases req <;> rfl
  refine ⟨fun k => ⟨(h.clock k).1.trans (Nat.lt_succ_self _), (h.clock k).2.trans (Nat.lt_succ_self _)⟩, fun ts hts => ?_,
    fun x => ?_⟩
  · rw [hjobs] at hts
    rcases List.mem_append.mp hts with hts | hts
    · exact h.shape ts hts
    · obtain rfl := List.mem_singleton.mp hts
      exact .asked habout
  obtain ⟨im, him⟩ := h.timed x
  refine ⟨im, him.aside ⟨Nat.le_succ _, fun e he _ => ⟨e, hreg ▸ he, rfl, rfl⟩, fun n m _ => by rw [hdisk], rfl, rfl,
    fun k ts hts => ?_, fun k ts _ _ => ⟨rfl, rfl⟩⟩ fun k p hk => apply_known hsound hk (List.mem_singleton.mpr rfl)⟩
  rw [hjobs]
  refine ⟨fun hk => ?_, fun hk => ?_⟩
  · rcases lt_or_ge k s.jobs.length with hlt | hge
    · rwa [List.getElem?_append_left hlt] at hk
    · rw [List.getElem?_append_right hge, List.getElem?_singleton] at hk
      split at hk
      · obtain rfl := Option.some.inj hk
        obtain ⟨t, ht, hx⟩ := hts
        obtain rfl := List.mem_singleton.mp ht
        rw [habout] at hx
        cases hx
      · cases hk
  · obtain ⟨hlt, -⟩ := List.getElem?_eq_some_iff.mp hk
    rwa [List.getElem?_append_left hlt]

/-! ### The steps of a run -/

/-- The system with its schedule. -/
def scheduled [DecidableEq P] (path : String → String → P) (env : CollectorEnv W Span) (so : Sys W P × Schedule) (a : Action Span) :
    Option (Sys W P × Schedule) :=
  (so.1.step path env a).map fun s' => (s', so.2.note so.1 a)

theorem elsewhere_of_job {i j : ℕ} {ts : List (Task W)} {C : Task W → Prop} (hj : s.jobs[j]? = some ts) (hne : j ≠ i)
    {t : Task W} (ht : t ∈ ts) (hC : C t) : Elsewhere s.calls i fun c => ∃ t ∈ c.tasks, C t := by
  unfold jobs at hj
  rw [List.getElem?_map, Option.map_eq_some_iff] at hj
  obtain ⟨c, hc, rfl⟩ := hj
  exact ⟨j, c, hne, hc, t, ht, hC⟩

section Run

variable [DecidableEq W]

/-- An edit is applied where its file stands, or another call goes on. -/
theorem Scheduled.apply_covered (h : Scheduled path s o) (hd : s.reg.Distinct)
    (hsound : ∀ c ∈ s.calls, ∀ t ∈ c.tasks, t.Sound s.reg) {i : ℕ} {p : PendingEdit W} {rest : List (Task W)} {g : Hold P}
    (hi : s.calls[i]? = some ⟨.editApply p :: rest, g⟩) (hgood : o.applied p.id ≤ o.saved i) {e : Entry W}
    (he : e ∈ s.reg.entries) (hid : e.id = p.id) :
    onDisk path s.disk (e.persistedWith p.defn p.targetDomain) = true ∨
      Elsewhere s.calls i fun c => ∃ t ∈ c.tasks, t.Covers (edited env s.loss p e) := by
  have hjobs := jobs_get hi
  obtain rfl := (h.shape _ (List.mem_of_getElem? hjobs)).alone (show jobPath path (.editApply p) = none from rfl)
  obtain ⟨im, him⟩ := h.timed p.id
  rcases him.stands i p hjobs rfl with hon | ⟨j, q, hj, hq, hlt⟩ | hlt
  · rcases him.base i p (.inr hjobs) rfl e he hid with hagree | ⟨j, tk, hj, htk⟩
    · obtain ⟨e', he', hid', howner, -⟩ := mem_keys.mp (apply_known hsound hjobs (List.mem_singleton.mpr rfl))
      obtain rfl := hd.unique he he' (hid.trans hid'.symm)
      obtain ⟨f, hf, hfile⟩ := Option.map_eq_some_iff.mp hon
      refine .inl (onDisk_iff.mpr ⟨f, ?_, hfile ▸ hagree⟩)
      rw [← hf, ← howner]
      rfl
    · refine .inr (elsewhere_of_job hj ?_ (List.mem_singleton.mpr rfl) (by simpa [Task.Covers] using htk.trans hid.symm))
      rintro rfl
      rw [hjobs] at hj
      simp at hj
  · refine .inr (elsewhere_of_job hj ?_ (List.mem_singleton.mpr rfl) (by simpa [Task.Covers] using hq.trans hid.symm))
    rintro rfl
    exact absurd hlt (lt_irrefl _)
  · exact absurd hlt hgood.not_gt

omit [DecidableEq W] in
/-- A file other than an edit's is saved that describes its collector, or
another call goes on. -/
theorem Scheduled.save_covered (h : Scheduled path s o) {i id : ℕ} {file : PersistedCollector W} {g : Hold P}
    (hi : s.calls[i]? = some ⟨[.write id file], g⟩) (hgood : o.latest id ≤ o.prepared i) {e : Entry W}
    (he : e ∈ s.reg.entries) (hid : e.id = id) :
    file.Agrees e.toPersisted ∨ Elsewhere s.calls i fun c => ∃ t ∈ c.tasks, t.Covers e := by
  have hjobs := jobs_get hi
  obtain ⟨im, him⟩ := h.timed id
  obtain ⟨hle, hagree⟩ := him.image i file hjobs
  by_cases heq : o.prepared i = im
  · exact .inl (hagree heq e he hid)
  · -- a later file is to be saved, or a snapshot to be filed
    right
    rcases him.newest e he hid with hlast | ⟨j, tk, hj, htk⟩ | ⟨j, f, hj, hprep⟩
    · exact absurd (hle.antisymm (hlast.trans hgood)) heq
    · refine elsewhere_of_job hj ?_ (List.mem_singleton.mpr rfl) (htk.trans hid.symm)
      rintro rfl
      rw [hjobs] at hj
      simp at hj
    · refine elsewhere_of_job hj ?_ (List.mem_singleton.mpr rfl) ⟨hid.symm, (him.image j f hj).2 hprep e he hid⟩
      rintro rfl
      exact heq hprep

theorem Durable.callStep [DecidableEq P] (h : Durable path s) (hsched : Scheduled path s o) (hknown : Known s') {i : ℕ}
    {c : Call W P} {ok : Bool} (hi : s.calls[i]? = some c) (hstep : CallStep env path s i c ok s') (hok : ok = true)
    (hgood : s.onSchedule path o (.step i ok : Action Span) = true) :
    Durable path s' ∧ Scheduled path s' (o.note s (.step i ok : Action Span)) := by
  have hmem := List.mem_of_getElem? hi
  -- what changes no job and no file
  have hquiet : ∀ {hold : Hold P}, s'.reg = s.reg → s'.disk = s.disk → s'.calls = s.calls.set i ⟨c.tasks, hold⟩ →
      o.note s (.step i ok : Action Span) = o.tick →
      Durable path s' ∧ Scheduled path s' (o.note s (.step i ok : Action Span)) := by
    intro hold hreg hdisk hcalls hnote
    refine ⟨h.quiet hknown hi hreg hdisk hcalls rfl, hnote ▸ hsched.quiet h.sound ?_ hdisk fun e he => ⟨e, hreg ▸ he, rfl, rfl⟩⟩
    obtain ⟨hlt, heq⟩ := List.getElem?_eq_some_iff.mp (jobs_get hi)
    rw [jobs_set hcalls, ← heq, List.set_getElem_self]
  cases hstep with
  | @locked t rest ok hjob =>
    refine ⟨h.locked hknown hi rfl rfl rfl (fun owner domain metrics defn now ht e he hp => ?_) fun p ht e he hid => ?_,
      hsched.locked env h.known.distinct h.sound hi hjob hgood rfl rfl rfl⟩
    · subst ht
      have hall : ∀ e ∈ s.reg.entries, ¬ path e.owner.text e.name = path owner.text defn.name ∨
          e.isNamed owner defn.name = true := by simpa [onSchedule, hi] using hgood
      rcases hall e he with hne | hnamed
      · exact absurd hp hne
      · exact Entry.isNamed_iff.mp hnamed
    · subst ht
      exact hsched.apply_covered h.known.distinct h.sound hi (by simpa [onSchedule, hi] using hgood) he hid
  | @lock t rest p _ hjob =>
    obtain ⟨l, hcalls, hreg, _, hdisk⟩ := s.pathLock_frame i (t :: rest) p
    refine hquiet hreg hdisk hcalls ?_
    cases t with
    | write id file => simp [Schedule.note, hi]
    | delete owner name since => simp [Schedule.note, hi]
    | _ => simp [jobPath] at hjob
  | acquire _ => exact hquiet rfl rfl rfl (by simp [Schedule.note, hi])
  | decideWrite =>
    obtain ⟨n, hn, hk⟩ := h.sound _ hmem _ List.mem_cons_self
    have hlive := (h.known.live_of_any hmem).mpr ⟨n, hn, hk⟩
    unfold writeDecide at hknown ⊢
    unfold writeDecide at hquiet
    rw [if_pos hlive] at hknown hquiet ⊢
    exact hquiet rfl rfl rfl (by simp [Schedule.note, hi])
  | decideDelete => exact (h.sound _ hmem _ List.mem_cons_self).elim
  | @save l stamp id file rest ok =>
    unfold writeSave at hknown ⊢
    rw [if_pos hok] at hknown ⊢
    refine ⟨h.save hknown hi rfl rfl rfl ?_,
      hsched.save h.known.distinct h.apart h.sound hi hgood rfl rfl rfl⟩
    rcases (hsched.shape _ (List.mem_of_getElem? (jobs_get hi))).of_write with rfl | ⟨p, rfl, rfl, rfl⟩
    · exact .inr fun e he hid => hsched.save_covered hi (by simpa [onSchedule, hi, Call.edits] using hgood) he hid
    · exact .inl ⟨p, List.mem_cons_self, rfl⟩
  | forget => exact hquiet rfl rfl rfl (by simp [Schedule.note, hi])
  | release => exact hquiet rfl rfl rfl (by simp [Schedule.note, hi])
  | drop => exact hquiet rfl rfl rfl (by simp [Schedule.note, hi])

/-- **A step on schedule leaves every collector described or worked on.** -/
theorem Durable.step [DecidableEq P] (h : Durable path s) (hsched : Scheduled path s o) {a : Action Span}
    (hkeep : a.keeping = true) (hgood : s.onSchedule path o a = true) (hs : s.step path env a = some s') :
    Durable path s' ∧ Scheduled path s' (o.note s a) := by
  have hknown := h.known.step hs
  rcases step_cases path hs with ⟨req, rfl, rfl⟩ | ⟨i, ok, c, rfl, hi, hstep⟩ | ⟨m, k, t, rfl, rfl⟩ | ⟨d, sp, rfl, rfl⟩
  · refine ⟨⟨hknown, h.apart, fun c hc t ht => ?_, fun e he => (h.covered e he).imp_right fun ⟨c, hc, hcov⟩ => ?_⟩,
      hsched.asked h.sound rfl rfl rfl⟩
    · rcases List.mem_append.mp hc with hc | hc
      · exact h.sound c hc t ht
      · obtain rfl := List.mem_singleton.mp hc
        obtain rfl := List.mem_singleton.mp ht
        cases req with
        | remove _ _ => simp [Action.keeping] at hkeep
        | lifecycle _ => simp [Action.keeping] at hkeep
        | _ => trivial
    · exact ⟨c, List.mem_append_left _ hc, hcov⟩
  · exact h.callStep hsched hknown hi hstep hkeep hgood
  · exact ⟨⟨hknown, h.apart, h.sound, h.covered⟩, hsched.quiet h.sound rfl rfl fun e he => ⟨e, he, rfl, rfl⟩⟩
  · have hk := (keys_ingestSpan (r := s.reg) env d sp).1
    have hsame : ∀ e' ∈ (s.reg.ingestSpan env d sp).entries, ∃ e ∈ s.reg.entries, e.SameImage e' := by
      intro e' he'
      obtain ⟨e, he, rfl⟩ := List.mem_map.mp he'
      refine ⟨e, he, ?_⟩
      split <;> exact ⟨rfl, rfl⟩
    refine ⟨⟨hknown, apart_of_eq h.apart hk, fun c hc t ht => (h.sound c hc t ht).mono fun k hin => by rw [hk]; exact hin,
      fun e' he' => ?_⟩, hsched.quiet h.sound rfl rfl hsame⟩
    obtain ⟨e, he, hsame⟩ := hsame e' he'
    refine (h.covered e he).imp (fun hon => by rw [hsame.2]; exact hon) ?_
    intro ⟨c, hc, t, ht, hcov⟩
    exact ⟨c, hc, t, ht, hcov.same hsame⟩

end Run

end Sys

open Sys

/-- **The files describe what is armed**, in every state in which all calls
have returned, of every run of arming, edits, snapshots and resets from such a
state, in which saves succeed and no step makes a crossing. -/
theorem files_describe [DecidableEq W] [DecidableEq P] (env : CollectorEnv W Span) (path : String → String → P)
    (reg : CollectorRegistry W) (metrics : ℕ → ReceiverMetrics) (disk : P → Option (DiskFile W))
    (hdistinct : reg.Distinct) (hapart : reg.Apart path)
    (hdescribed : ∀ e ∈ reg.entries, ∃ f, disk (path e.owner.text e.name) = some f ∧ f.file.Agrees e.toPersisted)
    {s : Sys W P} {o : Schedule}
    (hreach : Reach (scheduled path env) (fun so a => a.keeping = true ∧ so.1.onSchedule path so.2 a = true)
      (Sys.start reg metrics disk, Schedule.start) (s, o))
    (hdone : ∀ c ∈ s.calls, c.Returned) :
    ∀ e ∈ s.reg.entries, ∃ f, s.disk (path e.owner.text e.name) = some f ∧ f.file.Agrees e.toPersisted := by
  have h : Durable path s ∧ Scheduled path s o := by
    refine hreach.invariant (I := fun so => Durable path so.1 ∧ Scheduled path so.1 so.2) ⟨?_, ?_⟩ fun so a so' h hgood hs => ?_
    · exact ⟨.start hdistinct metrics disk, hapart, by simp [Sys.start],
        fun e he => .inl (onDisk_iff.mpr (hdescribed e he))⟩
    · refine ⟨by simp [Schedule.start], by simp [Sys.start, jobs], fun x => ⟨0, ?_⟩⟩
      refine ⟨Nat.one_pos, ?_, ?_, ?_, ?_, ?_, fun _ _ _ => .inl le_rfl⟩ <;> simp [Sys.start, jobs, Editing]
    · obtain ⟨s', hs', rfl⟩ := Option.map_eq_some_iff.mp hs
      exact h.1.step h.2 hgood.1 hgood.2 hs'
  intro e he
  rcases h.1.covered e he with hon | ⟨c, hc, t, ht, _⟩
  · exact onDisk_iff.mp hon
  · rw [(hdone c hc).1] at ht
    exact absurd ht List.not_mem_nil

/-- A collector is armed and snapshotted, and an edit of it is checked before
the snapshot's file is saved. -/
def overtakenActs (o : SessionName) : List (Sys.Action Unit) :=
  .call (.add o ⟨"default"⟩ 0 (.sample "a" 1) 0) :: List.replicate 7 (.step 0 true) ++
    [.call (.snapshot o (.plain "a")), .step 1 true, .step 1 true,
     .call (.edit o "a" { CollectorEdit.default with description := some "x" } none 0), .step 2 true] ++ List.replicate 6 (.step 1 true) ++ List.replicate 7 (.step 2 true)

/-- The actions of a run as the condition allows them. -/
def onScheduleStep (so : Sys ℕ (String × String) × Schedule) (a : Sys.Action Unit) : Bool :=
  a.keeping && so.1.onSchedule Prod.mk so.2 a

theorem files_describe_overtaken : ∃ (s : Sys ℕ (String × String)) (o : Schedule),
    runActs (guarded (scheduled Prod.mk .counting) onScheduleStep)
      (Sys.start (.withBudget 10) (fun _ => .new) fun _ => none, Schedule.start) (overtakenActs ⟨"o", by decide⟩) = some (s, o) ∧
    s.reg.entries.map (fun e => (e.collector.defn.description, e.history.snapshots.length)) = [(some "x", 1)] ∧
    ∀ e ∈ s.reg.entries, ∃ f, s.disk (e.owner.text, e.name) = some f ∧ f.file.Agrees e.toPersisted := by
  refine ⟨_, _, rfl, by decide, ?_⟩
  refine files_describe .counting Prod.mk (.withBudget 10) (fun _ => .new) (fun _ => none)
    ⟨by simp [withBudget, keys], by simp [withBudget, keys]⟩ (by simp [Apart, withBudget, keys])
    (by simp [withBudget]) (reach_guarded (g := onScheduleStep) (fun _ _ h => by simpa [onScheduleStep] using h)
      (overtakenActs ⟨"o", by decide⟩) .start rfl) (by decide)

/-- Two edits of one collector are checked together; the first to save is the
last to be applied. -/
def crossedActs (o : SessionName) : List (Sys.Action Unit) :=
  .call (.add o ⟨"default"⟩ 0 (.sample "a" 1) 0) :: List.replicate 7 (.step 0 true) ++
    [.call (.edit o "a" { CollectorEdit.default with description := some "x" } none 0), .step 1 true,
     .call (.edit o "a" { CollectorEdit.default with description := some "y" } none 0), .step 2 true] ++ List.replicate 6 (.step 1 true) ++ List.replicate 7 (.step 2 true) ++ [.step 1 true]

theorem files_diverge : ∃ s : Sys ℕ (String × String),
    runActs (guarded (Sys.step Prod.mk .counting) fun _ a => a.keeping)
      (Sys.start (.withBudget 10) (fun _ => .new) fun _ => none) (crossedActs ⟨"o", by decide⟩) = some s ∧
    (∀ c ∈ s.calls, c.Returned) ∧
    s.reg.entries.map (fun e => e.collector.defn.description) = [some "x"] ∧
    (s.disk ("o", "a")).map (fun f => f.file.description) = some (some "y") :=
  ⟨_, rfl, by decide, by decide, by decide⟩

end Logmon
