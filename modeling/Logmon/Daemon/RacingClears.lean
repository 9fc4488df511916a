/-
# The processor among clears

`process_entry_for_domain` as the domain's one processor task runs it, a lock
at a time, with whatever request threads do between its steps: clears, each of
which reads the counter and then clears through the reading, changes of the
sessions, and spans that take seqs. Left alone, the steps compute
`processEntryForDomain` (`EntryFlight.run_eq`).

A clear that read the counter while an entry was on its way has the ring
refuse that entry for good, and the loss floor does not say so: an export over
its seq is then `complete` without it (`complete_misses_refused`). As long as no append finds the
admission floor past its entry (`RaceRun.admitsAppend`), every arrived entry
is settled once no entry is in flight, and `complete` is right
(`complete_survives_clears`).

Key definitions: `EntryStage`, `EntryFlight.advance`, `RaceRun`, `RaceRun.step`,
`RaceRun.Inv`.
-/
import Logmon.Daemon.Export
import Logmon.Lib.Reach
import Mathlib.Logic.Relation

namespace Logmon

open Lib LogPipeline

/-- A session whose triggers fired, and the sessions after it. -/
structure Firing where
  sid : SessionId
  fired : List TriggerMatch
  todo : List SessionId

/-- Where the processor stands with its entry: what it does next. -/
inductive EntryStage
  /-- The turn of the next session; after the last, the pre-trigger buffer. -/
  | sessions (todo : List SessionId)
  /-- Ask whether the triggering entry is held. -/
  | fired (f : Firing)
  | storeTriggering (f : Firing)
  | flush (f : Firing)
  | insert (batch : List LogEntry) (f : Firing)
  | notify (left : List TriggerMatch) (f : Firing)
  /-- Ask whether the entry is held. -/
  | ask
  | judge
  | append (e : LogEntry)

/-- The entry the processor is working on. -/
structure EntryFlight where
  entry : LogEntry
  anyPostWindowActive : Bool
  stage : EntryStage

/-- The processor's next step. -/
def EntryFlight.advance (E : TextEnv) (domain : DomainId) (f : EntryFlight) (p : LogPipeline) (s : SessionRegistry) :
    LogPipeline × SessionRegistry × Option EntryFlight :=
  match f.stage with
  | .sessions [] => (p.preBufferAppend f.entry, s, some { f with stage := .ask })
  | .sessions (sid :: todo) =>
    let (s, active, fired) := evaluateSession E s sid f.entry
    if fired.isEmpty then (p, s, some ⟨f.entry, f.anyPostWindowActive || active, .sessions todo⟩)
    else (p, s, some ⟨f.entry, true, .fired ⟨sid, fired, todo⟩⟩)
  | .fired g =>
    (p, s, some { f with stage := if p.containsSeq f.entry.seq then .flush g else .storeTriggering g })
  | .storeTriggering g =>
    (p.appendToStore { f.entry with source := .preTrigger }, s, some { f with stage := .flush g })
  | .flush g =>
    let (buffer, batch) := flushBatch p f.entry g.fired
    ({ p with preBuffer := buffer }, s, some { f with stage := .insert batch g })
  | .insert batch g =>
    (p.insertSorted batch, s.extendPostWindow g.sid (maxPost g.fired), some { f with stage := .notify g.fired g })
  | .notify (m :: left) g =>
    let (p, s) := notifyMatch g.sid f.entry (maxPre g.fired) (p, s) m
    (p, s, some { f with stage := .notify left g })
  | .notify [] g =>
    (if g.fired.any TriggerMatch.oneshot then syncPreBufferSizeForDomain p s domain else p, s,
     some { f with stage := .sessions g.todo })
  | .ask =>
    if p.containsSeq f.entry.seq then (p, s, none)
    else if f.anyPostWindowActive then (p, s, some { f with stage := .append { f.entry with source := .postTrigger } })
    else (p, s, some { f with stage := .judge })
  | .judge =>
    match judgeEntry E p s domain f.entry with
    | (p, none) => (p, s, none)
    | (p, some e) => (p, s, some { f with stage := .append e })
  | .append e => (p.appendToStore e, s, none)

/-! ### Left alone -/

namespace EntryFlight

variable {E : TextEnv} {domain : DomainId}

/-- What the processor has in hand. -/
abbrev State := LogPipeline × SessionRegistry × Option EntryFlight

/-- One step with nothing in between. -/
def Steps (E : TextEnv) (domain : DomainId) (x y : State) : Prop :=
  ∃ f, x.2.2 = some f ∧ f.advance E domain x.1 x.2.1 = y

abbrev Runs (E : TextEnv) (domain : DomainId) : State → State → Prop := Relation.ReflTransGen (Steps E domain)

theorem runs_head {p : LogPipeline} {s : SessionRegistry} {f : EntryFlight} {y z : State}
    (h : f.advance E domain p s = y) (hr : Runs E domain y z) : Runs E domain (p, s, some f) z :=
  .head ⟨f, rfl, h⟩ hr

/-- The notifications of one session. -/
theorem runs_notify (entry : LogEntry) (active : Bool) (g : Firing) : ∀ (left : List TriggerMatch) (p : LogPipeline)
    (s : SessionRegistry), Runs E domain (p, s, some ⟨entry, active, .notify left g⟩)
      (if g.fired.any TriggerMatch.oneshot then
          syncPreBufferSizeForDomain (left.foldl (notifyMatch g.sid entry (maxPre g.fired)) (p, s)).1
            (left.foldl (notifyMatch g.sid entry (maxPre g.fired)) (p, s)).2 domain
        else (left.foldl (notifyMatch g.sid entry (maxPre g.fired)) (p, s)).1,
       (left.foldl (notifyMatch g.sid entry (maxPre g.fired)) (p, s)).2, some ⟨entry, active, .sessions g.todo⟩)
  | [], _, _ => runs_head rfl .refl
  | _ :: left, _, _ => runs_head rfl (runs_notify entry active g left _ _)

/-- The turn of one session. -/
theorem runs_turn (entry : LogEntry) (sid : SessionId) (todo : List SessionId) (x : Turns) :
    Runs E domain (x.pipeline, x.sessions, some ⟨entry, x.anyPostWindowActive, .sessions (sid :: todo)⟩)
      ((sessionTurn E domain entry x sid).pipeline, (sessionTurn E domain entry x sid).sessions,
       some ⟨entry, (sessionTurn E domain entry x sid).anyPostWindowActive, .sessions todo⟩) := by
  by_cases hfired : (evaluateSession E x.sessions sid entry).2.2.isEmpty = true
  · refine runs_head (y := ((sessionTurn E domain entry x sid).pipeline, (sessionTurn E domain entry x sid).sessions,
       some ⟨entry, (sessionTurn E domain entry x sid).anyPostWindowActive, .sessions todo⟩)) ?_ .refl
    simp only [advance, sessionTurn, hfired, ↓reduceIte]
  · set g : Firing := ⟨sid, (evaluateSession E x.sessions sid entry).2.2, todo⟩ with hg
    set s := (evaluateSession E x.sessions sid entry).1 with hs
    have hturn : sessionTurn E domain entry x sid =
        ⟨(notifySession (flushPreWindow (storeTriggering x.pipeline entry) entry g.fired) s domain sid entry g.fired).1,
          (notifySession (flushPreWindow (storeTriggering x.pipeline entry) entry g.fired) s domain sid entry g.fired).2,
          true⟩ := by
      simp only [sessionTurn, hfired, Bool.false_eq_true, ↓reduceIte, hg, hs]
    have hflush : Runs E domain (storeTriggering x.pipeline entry, s, some ⟨entry, true, .flush g⟩)
        ((sessionTurn E domain entry x sid).pipeline, (sessionTurn E domain entry x sid).sessions,
         some ⟨entry, (sessionTurn E domain entry x sid).anyPostWindowActive, .sessions todo⟩) := by
      rw [hturn]
      exact runs_head rfl (runs_head rfl (runs_notify entry true g g.fired _ _))
    have hstart : (⟨entry, x.anyPostWindowActive, .sessions (sid :: todo)⟩ : EntryFlight).advance E domain x.pipeline
        x.sessions = (x.pipeline, s, some ⟨entry, true, .fired g⟩) := by
      simp only [advance, hfired, Bool.false_eq_true, ↓reduceIte, hg, hs]
    refine runs_head hstart ?_
    by_cases hheld : x.pipeline.containsSeq entry.seq = true
    · have hsame : storeTriggering x.pipeline entry = x.pipeline := by simp [storeTriggering, hheld]
      rw [hsame] at hflush
      exact runs_head (by simp only [advance, hheld, ↓reduceIte]) hflush
    · have happ : storeTriggering x.pipeline entry = x.pipeline.appendToStore { entry with source := .preTrigger } := by
        simp [storeTriggering, hheld]
      rw [happ] at hflush
      have hstore : Runs E domain (x.pipeline, s, some ⟨entry, true, .storeTriggering g⟩) _ := runs_head rfl hflush
      exact runs_head (by simp only [advance, hheld, Bool.false_eq_true, ↓reduceIte]) hstore

/-- The loop over the sessions. -/
theorem runs_turns (entry : LogEntry) : ∀ (sids : List SessionId) (x : Turns),
    Runs E domain (x.pipeline, x.sessions, some ⟨entry, x.anyPostWindowActive, .sessions sids⟩)
      ((sids.foldl (sessionTurn E domain entry) x).pipeline, (sids.foldl (sessionTurn E domain entry) x).sessions,
       some ⟨entry, (sids.foldl (sessionTurn E domain entry) x).anyPostWindowActive, .sessions []⟩)
  | [], _ => .refl
  | sid :: sids, x => (runs_turn entry sid sids x).trans (runs_turns entry sids _)

/-- The end of the processing. -/
theorem runs_store (entry : LogEntry) (active : Bool) (p : LogPipeline) (s : SessionRegistry) :
    Runs E domain (p, s, some ⟨entry, active, .ask⟩) (storeEntry E p s domain entry active, s, none) := by
  by_cases hheld : p.containsSeq entry.seq = true
  · refine runs_head (y := (p, s, none)) (by simp only [advance, hheld, ↓reduceIte]) ?_
    simp only [storeEntry, hheld, ↓reduceIte]
    exact .refl
  · cases active with
    | true =>
      refine runs_head (y := (p, s, some ⟨entry, true, .append { entry with source := .postTrigger }⟩))
        (by simp only [advance, hheld, Bool.false_eq_true, ↓reduceIte]) (runs_head rfl ?_)
      simp only [storeEntry, hheld, Bool.false_eq_true, ↓reduceIte]
      exact .refl
    | false =>
      refine runs_head (y := (p, s, some ⟨entry, false, .judge⟩))
        (by simp only [advance, hheld, Bool.false_eq_true, ↓reduceIte]) ?_
      simp only [storeEntry, hheld, Bool.false_eq_true, ↓reduceIte]
      cases hj : judgeEntry E p s domain entry with
      | mk p' decided =>
        cases decided with
        | none => exact runs_head (by simp only [advance, hj]) .refl
        | some e =>
          refine runs_head (y := (p', s, some ⟨entry, false, .append e⟩)) (by simp only [advance, hj]) ?_
          exact runs_head rfl .refl

/-- **Left alone, the processor computes `processEntryForDomain`.** -/
theorem run_eq (E : TextEnv) (domain : DomainId) (p : LogPipeline) (s : SessionRegistry) (entry : LogEntry) :
    Runs E domain
      (p.assignSeq, s, some ⟨assigned p entry, false, .sessions (s.activeSessionIdsSortedByPreWindowForDomain domain)⟩)
      ((processEntryForDomain E p s domain entry).1, (processEntryForDomain E p s domain entry).2, none) := by
  have hturns := @runs_turns E domain (assigned p entry)
    (s.activeSessionIdsSortedByPreWindowForDomain domain) ⟨p.assignSeq, s, false⟩
  exact hturns.trans (runs_head rfl (runs_store _ _ _ _))

end EntryFlight

/-! ### Among clears -/

/-- A domain's log side with its processor, the entries assigned a seq, and
the counter readings of the clears under way. -/
structure RaceRun where
  pipeline : LogPipeline
  sessions : SessionRegistry
  arrived : List LogEntry
  flight : Option EntryFlight
  readings : List ℕ

inductive RaceAct
  /-- The processor takes the next entry and assigns its seq. -/
  | assign (entry : LogEntry)
  | advance
  /-- A clear reads the counter. -/
  | readCounter
  /-- A clear that read `n` clears through it. -/
  | clearThrough (n : ℕ)
  | configure (sessions : SessionRegistry)
  | resizePreBuffer (size : ℕ)
  /-- A span takes a seq. -/
  | span

namespace RaceRun

def new (capacity : ℕ) (h : capacity ≤ u64Max) (initialSeq : ℕ) : RaceRun :=
  ⟨.newWithSeq capacity h initialSeq, .new, [], none, []⟩

def step (E : TextEnv) (domain : DomainId) (s : RaceRun) : RaceAct → Option RaceRun
  | .assign entry =>
    match s.flight with
    | some _ => none
    | none =>
      some { s with
        pipeline := s.pipeline.assignSeq
        arrived := s.arrived ++ [assigned s.pipeline entry]
        flight := some ⟨assigned s.pipeline entry, false,
          .sessions (s.sessions.activeSessionIdsSortedByPreWindowForDomain domain)⟩ }
  | .advance =>
    s.flight.map fun f =>
      let (p, sessions, flight) := f.advance E domain s.pipeline s.sessions
      { s with pipeline := p, sessions, flight }
  | .readCounter => some { s with readings := s.pipeline.seq :: s.readings }
  | .clearThrough n =>
    if n ∈ s.readings then
      some { s with pipeline := s.pipeline.clearThrough n, readings := s.readings.erase n }
    else none
  | .configure sessions => some { s with sessions }
  | .resizePreBuffer size => some { s with pipeline := s.pipeline.resizePreBuffer size }
  | .span => some { s with pipeline := s.pipeline.assignSeq }

/-- The seq counter is not at its end, and an entry about to be appended is
not below the admission floor, unless the loss floor is past it too. -/
def admitsAppend (s : RaceRun) : RaceAct → Prop
  | .assign _ => s.pipeline.seq + 1 < u64Max
  | .span => s.pipeline.seq + 1 < u64Max
  | .advance => ∀ f ∈ s.flight, ∀ e, f.stage = .append e →
      s.pipeline.store.admitFrom ≤ e.seq ∨ e.seq < s.pipeline.store.lostBelow
  | _ => True

/-- What the processor carries is made of the arrived. -/
def Made (arrived : List LogEntry) (entry : LogEntry) : EntryStage → Prop
  | .insert batch _ => ∀ e ∈ batch, ∃ y ∈ arrived, e.SameRecord y
  | .append e => e.SameRecord entry
  | _ => True

/-- Every arrived entry but the one in flight is settled; that one is the
newest. -/
structure Inv (s : RaceRun) : Prop where
  sound : Sound s.arrived s.pipeline
  settled : ∀ y ∈ s.arrived, (∀ f ∈ s.flight, y ≠ f.entry) → s.pipeline.Settled y
  entry : ∀ f ∈ s.flight, f.entry ∈ s.arrived
  newest : ∀ f ∈ s.flight, ∀ y ∈ s.arrived, y ≠ f.entry → y.seq < f.entry.seq
  made : ∀ f ∈ s.flight, Made s.arrived f.entry f.stage
  decided : ∀ f ∈ s.flight, s.pipeline.epochs.Upto f.entry.seq
  assigned : ∀ y ∈ s.arrived, 0 < y.seq ∧ y.seq ≤ s.pipeline.seq ∧ y.seq < u64Max
  upto : s.pipeline.epochs.Upto s.pipeline.seq
  admits : s.pipeline.store.admitFrom ≤ s.pipeline.seq + 1
  readings : ∀ n ∈ s.readings, n ≤ s.pipeline.seq

theorem inv_new (capacity : ℕ) (h : capacity ≤ u64Max) (initialSeq : ℕ) : (new capacity h initialSeq).Inv where
  sound := sound_new capacity h initialSeq
  settled := by simp [new]
  entry := by simp [new]
  newest := by simp [new]
  made := by simp [new]
  decided := by simp [new]
  assigned := by simp [new]
  upto := ⟨le_rfl, by simp [new, newWithSeq, EpochLog.new]⟩
  admits := Nat.zero_le _
  readings := by simp [new]

variable {E : TextEnv} {domain : DomainId}

/-- What a step of the processor does to what is settled. -/
structure Advanced (arrived : List LogEntry) (f : EntryFlight) (p p' : LogPipeline) (flight : Option EntryFlight) : Prop where
  sound : Sound arrived p'
  keeps : ∀ y : LogEntry, y.seq < f.entry.seq → p.Settled y → p'.Settled y
  done : flight = none → p'.Settled f.entry
  entry : ∀ g ∈ flight, g.entry = f.entry
  made : ∀ g ∈ flight, Made arrived f.entry g.stage
  upto : p'.epochs.Upto f.entry.seq
  seq : p'.seq = p.seq
  admitFrom : p'.store.admitFrom = p.store.admitFrom

variable {arrived : List LogEntry} {f : EntryFlight} {p p' : LogPipeline}

/-- A step on the way. -/
theorem Advanced.next (h : Through arrived p p') (hupto : p.epochs.Upto f.entry.seq) (active : Bool) {stage : EntryStage}
    (hmade : Made arrived f.entry stage) : Advanced arrived f p p' (some ⟨f.entry, active, stage⟩) where
  sound := h.sound
  keeps y _ hy := h.keeps y hy
  done hnone := by simp at hnone
  entry g hg := by rw [← Option.mem_some_iff.mp hg]
  made g hg := by
    rw [← Option.mem_some_iff.mp hg]
    exact hmade
  upto := h.epochs ▸ hupto
  seq := h.seq
  admitFrom := h.admitFrom

/-- The last step. -/
theorem Advanced.last (h : Through arrived p p') (hupto : p.epochs.Upto f.entry.seq) (hs : p'.Settled f.entry) :
    Advanced arrived f p p' none where
  sound := h.sound
  keeps y _ hy := h.keeps y hy
  done _ := hs
  entry g hg := by simp at hg
  made g hg := by simp at hg
  upto := h.epochs ▸ hupto
  seq := h.seq
  admitFrom := h.admitFrom

/-- The filters' step. -/
theorem advanced_judge (h : Sound arrived p) (hupto : p.epochs.Upto f.entry.seq) (s : SessionRegistry)
    (hstage : f.stage = .judge) :
    Advanced arrived f p (f.advance E domain p s).1 (f.advance E domain p s).2.2 := by
  have hsound : Sound arrived (judgeEntry E p s domain f.entry).1 := ⟨h.wf, h.ring, h.buffer, h.distinct⟩
  have hupto' : (judgeEntry E p s domain f.entry).1.epochs.Upto f.entry.seq := hupto.observe
  have hkeeps : ∀ y : LogEntry, y.seq < f.entry.seq → p.Settled y → (judgeEntry E p s domain f.entry).1.Settled y :=
    fun y hlt hy => hy.observe hlt
  cases hj : (judgeEntry E p s domain f.entry).2 with
  | none =>
    have hadv : f.advance E domain p s = ((judgeEntry E p s domain f.entry).1, s, none) := by
      simp only [EntryFlight.advance, hstage]
      split <;> simp_all
    have hdark := @judgeEntry_dark E domain _ _ s hupto hj
    rw [hadv]
    exact ⟨hsound, hkeeps, fun _ => .inr (.inr hdark), by simp, by simp, hupto', rfl, rfl⟩
  | some e =>
    have hadv : f.advance E domain p s =
        ((judgeEntry E p s domain f.entry).1, s, some { f with stage := .append e }) := by
      simp only [EntryFlight.advance, hstage]
      split <;> simp_all
    have hrec := @judgeEntry_sameRecord E domain p _ s _ hj
    rw [hadv]
    exact ⟨hsound, hkeeps, by simp, by simp, by simpa [Made] using hrec, hupto', rfl, rfl⟩

/-- **What every step of the processor does.** -/
theorem advanced (h : Sound arrived p) (hentry : f.entry ∈ arrived) (hmade : Made arrived f.entry f.stage)
    (hupto : p.epochs.Upto f.entry.seq) (s : SessionRegistry)
    (hadmitted : ∀ e, f.stage = .append e → p.store.admitFrom ≤ e.seq ∨ e.seq < p.store.lostBelow) :
    Advanced arrived f p (f.advance E domain p s).1 (f.advance E domain p s).2.2 := by
  obtain ⟨entry, active, stage⟩ := f
  cases stage with
  | sessions todo =>
    cases todo with
    | nil => exact .next (preBufferAppend_through h hentry) hupto active trivial
    | cons sid todo =>
      simp only [EntryFlight.advance]
      split
      · exact .next h.through_refl hupto _ trivial
      · exact .next h.through_refl hupto _ trivial
  | fired g =>
    refine .next h.through_refl hupto active ?_
    split <;> trivial
  | storeTriggering g => exact .next (h.append ⟨entry, hentry, LogEntry.sameRecord_source entry _⟩) hupto active trivial
  | flush g => exact .next (flushBatch_through h entry g.fired) hupto active (flushBatch_made h entry g.fired)
  | insert batch g => exact .next (h.insertSorted hmade) hupto active trivial
  | notify left g =>
    cases left with
    | nil =>
      refine .next ?_ hupto active trivial
      simp only [EntryFlight.advance]
      split
      · exact h.congr rfl (fun e he => PreTriggerBuffer.mem_resize he) rfl rfl
      · exact h.through_refl
    | cons m left =>
      have hnotified : Through arrived p (notifyMatch g.sid entry (maxPre g.fired) (p, s) m).1 :=
        h.congr rfl (fun _ he => he) rfl rfl
      exact .next hnotified hupto active trivial
  | ask =>
    simp only [EntryFlight.advance]
    split
    · rename_i hc
      exact .last h.through_refl hupto (.inl (h.held_of_contains hentry hc))
    · split
      · exact .next h.through_refl hupto active (LogEntry.sameRecord_source entry _)
      · exact .next h.through_refl hupto active trivial
  | judge => exact advanced_judge h hupto s rfl
  | append e =>
    have hrec : e.SameRecord entry := hmade
    refine .last (h.append ⟨entry, hentry, hrec⟩) hupto (h.append_settles hentry hrec ?_)
    rcases hadmitted e rfl with hle | hlt
    · exact .inl (hrec.seq ▸ hle)
    · rw [hrec.seq] at hlt
      exact .inr (.inr (satAdd_one_le hlt))

variable {s s' : RaceRun}

theorem Inv.assign (h : s.Inv) (hidle : s.flight = none) (hseq : s.pipeline.seq + 1 < u64Max) (entry : LogEntry)
    (stage : EntryStage) (hstage : Made (s.arrived ++ [Logmon.assigned s.pipeline entry]) (Logmon.assigned s.pipeline entry)
      stage) :
    Inv { s with
      pipeline := s.pipeline.assignSeq
      arrived := s.arrived ++ [Logmon.assigned s.pipeline entry]
      flight := some ⟨Logmon.assigned s.pipeline entry, false, stage⟩ } := by
  set e := Logmon.assigned s.pipeline entry with he
  have hn : e.seq = s.pipeline.seq + 1 := nextSeq_eq (by omega)
  have hn' : s.pipeline.assignSeq.seq = s.pipeline.seq + 1 := hn
  have hold : ∀ y ∈ s.arrived ++ [e], y ≠ e → y ∈ s.arrived := by
    intro y hy hne
    rcases List.mem_append.mp hy with hy | hy
    · exact hy
    · exact absurd (List.mem_singleton.mp hy) hne
  refine ⟨h.sound.arrive (by omega) (fun y hy => (h.assigned y hy).2.1) entry, fun y hy hne => ?_, fun f hf => ?_,
    fun f hf y hy hne => ?_, fun f hf => ?_, fun f hf => ?_, fun y hy => ?_, ?_, ?_, fun n hmem => ?_⟩
  · exact h.settled y (hold y hy (hne _ rfl)) (by simp [hidle])
  · obtain rfl := Option.mem_some_iff.mp hf
    exact List.mem_append_right _ List.mem_cons_self
  · obtain rfl := Option.mem_some_iff.mp hf
    show y.seq < e.seq
    have := (h.assigned y (hold y hy hne)).2.1
    omega
  · obtain rfl := Option.mem_some_iff.mp hf
    exact hstage
  · obtain rfl := Option.mem_some_iff.mp hf
    exact h.upto.mono (show s.pipeline.seq ≤ e.seq by omega)
  · show 0 < y.seq ∧ y.seq ≤ s.pipeline.assignSeq.seq ∧ y.seq < u64Max
    rcases List.mem_append.mp hy with hy | hy
    · have := h.assigned y hy
      omega
    · rw [List.mem_singleton.mp hy]
      omega
  · exact h.upto.mono (show s.pipeline.seq ≤ s.pipeline.assignSeq.seq by omega)
  · show s.pipeline.store.admitFrom ≤ s.pipeline.assignSeq.seq + 1
    have := h.admits
    omega
  · show n ≤ s.pipeline.assignSeq.seq
    have := h.readings n hmem
    omega

theorem Inv.advance (h : s.Inv) {f : EntryFlight} (hf : s.flight = some f)
    (hadmitted : ∀ e, f.stage = .append e → s.pipeline.store.admitFrom ≤ e.seq ∨ e.seq < s.pipeline.store.lostBelow) :
    Inv { s with
      pipeline := (f.advance E domain s.pipeline s.sessions).1
      sessions := (f.advance E domain s.pipeline s.sessions).2.1
      flight := (f.advance E domain s.pipeline s.sessions).2.2 } := by
  have hadv := @advanced E domain _ _ _ h.sound (h.entry f hf) (h.made f hf) (h.decided f hf) s.sessions hadmitted
  refine ⟨hadv.sound, fun y hy hne => ?_, fun g hg => ?_, fun g hg y hy hne => ?_, fun g hg => ?_, fun g hg => ?_,
    fun y hy => ?_, ?_, ?_, fun n hn => ?_⟩
  · -- the entry of this flight, or one that was settled before
    by_cases hself : y = f.entry
    · subst hself
      refine hadv.done (Option.eq_none_iff_forall_ne_some.mpr fun g hg => ?_)
      exact hne g hg (hadv.entry g hg).symm
    · refine hadv.keeps y (h.newest f hf y hy hself) (h.settled y hy fun g hg => ?_)
      obtain rfl := Option.some.inj (hf.symm.trans hg)
      exact hself
  · rw [hadv.entry g hg]
    exact h.entry f hf
  · rw [hadv.entry g hg] at hne ⊢
    exact h.newest f hf y hy hne
  · rw [hadv.entry g hg]
    exact hadv.made g hg
  · rw [hadv.entry g hg]
    exact hadv.upto
  · have := h.assigned y hy
    rw [hadv.seq]
    exact this
  · exact hadv.upto.mono (by rw [hadv.seq]; exact (h.assigned _ (h.entry f hf)).2.1)
  · show (f.advance E domain s.pipeline s.sessions).1.store.admitFrom ≤ _
    rw [hadv.admitFrom, hadv.seq]
    exact h.admits
  · rw [hadv.seq]
    exact h.readings n hn

theorem Inv.clearThrough (h : s.Inv) {n : ℕ} (hn : n ∈ s.readings) :
    Inv { s with pipeline := s.pipeline.clearThrough n, readings := s.readings.erase n } := by
  obtain ⟨hsound, hkeeps⟩ := h.sound.clearThrough n
  refine ⟨hsound, fun y hy hne => hkeeps y (h.settled y hy hne), h.entry, h.newest, h.made, h.decided, h.assigned,
    h.upto, ?_, fun m hm => h.readings m (List.mem_of_mem_erase hm)⟩
  show max s.pipeline.store.clearLocked.admitFrom (satAdd n 1) ≤ s.pipeline.seq + 1
  have hsame : s.pipeline.store.clearLocked.admitFrom = s.pipeline.store.admitFrom := by
    rw [InMemoryStore.clearLocked_eq h.sound.wf.asc]
  have hle := h.readings n hn
  rw [hsame]
  exact max_le h.admits (le_trans (satAdd_le_add _ _) (by omega))

theorem Inv.span (h : s.Inv) (hseq : s.pipeline.seq + 1 < u64Max) :
    Inv { s with pipeline := s.pipeline.assignSeq } := by
  have hn : s.pipeline.assignSeq.seq = s.pipeline.seq + 1 := nextSeq_eq (by omega)
  have hsound : Sound s.arrived s.pipeline.assignSeq :=
    ⟨h.sound.wf, h.sound.ring, h.sound.buffer, h.sound.distinct⟩
  refine ⟨hsound, h.settled, h.entry, h.newest, h.made, h.decided, fun y hy => ?_, ?_, ?_, fun n hn' => ?_⟩
  · show 0 < y.seq ∧ y.seq ≤ s.pipeline.assignSeq.seq ∧ y.seq < u64Max
    have := h.assigned y hy
    omega
  · exact h.upto.mono (show s.pipeline.seq ≤ s.pipeline.assignSeq.seq by omega)
  · show s.pipeline.store.admitFrom ≤ s.pipeline.assignSeq.seq + 1
    have := h.admits
    omega
  · show n ≤ s.pipeline.assignSeq.seq
    have := h.readings n hn'
    omega

/-- **Every action keeps it** whose append is admitted. -/
theorem Inv.step {a : RaceAct} (h : s.Inv) (hg : s.admitsAppend a) (hs : s.step E domain a = some s') : s'.Inv := by
  cases a with
  | assign entry =>
    simp only [RaceRun.step] at hs
    split at hs
    · simp at hs
    · rename_i hidle
      obtain rfl := Option.some.inj hs
      exact h.assign hidle hg entry _ trivial
  | advance =>
    obtain ⟨f, hf, rfl⟩ := Option.map_eq_some_iff.mp hs
    exact h.advance hf (hg f hf)
  | readCounter =>
    obtain rfl := Option.some.inj hs
    refine ⟨h.sound, h.settled, h.entry, h.newest, h.made, h.decided, h.assigned, h.upto, h.admits, fun n hn => ?_⟩
    rcases List.mem_cons.mp hn with rfl | hn
    · exact le_rfl
    · exact h.readings n hn
  | clearThrough n =>
    simp only [RaceRun.step] at hs
    split at hs
    · rename_i hn
      obtain rfl := Option.some.inj hs
      exact h.clearThrough hn
    · simp at hs
  | configure sessions =>
    obtain rfl := Option.some.inj hs
    exact ⟨h.sound, h.settled, h.entry, h.newest, h.made, h.decided, h.assigned, h.upto, h.admits, h.readings⟩
  | resizePreBuffer size =>
    obtain rfl := Option.some.inj hs
    have ht : Through s.arrived s.pipeline (s.pipeline.resizePreBuffer size) :=
      h.sound.congr rfl (fun e he => PreTriggerBuffer.mem_resize he) rfl rfl
    exact ⟨ht.sound, fun y hy hne => ht.keeps y (h.settled y hy hne), h.entry, h.newest, h.made, h.decided, h.assigned,
      h.upto, h.admits, h.readings⟩
  | span =>
    obtain rfl := Option.some.inj hs
    exact h.span hg

end RaceRun

/-- **`complete` survives racing clears** that never have an append refused:
in every state reached with no entry in flight, a complete export of
`lo..=hi` has every entry assigned a seq in it that matches the filter. -/
theorem complete_survives_clears (E : TextEnv) (domain : DomainId) (capacity : ℕ) (hcap : capacity ≤ u64Max)
    (initialSeq : ℕ) {s : RaceRun}
    (hr : Reach (RaceRun.step E domain) RaceRun.admitsAppend (.new capacity hcap initialSeq) s)
    (hidle : s.flight = none) (bookmarks : BookmarkStore) (session : SessionName) (req : ExportRequest) (now : ℤ)
    {lo hi : ℕ} (hlo : req.fromSeq = some lo) (hhi : req.toSeq = some hi) {b : BookmarkStore} {reply : ExportReply}
    (hreply : handleLogsExport E s.pipeline bookmarks session req now = (b, .ok reply))
    (hc : reply.verdict = .complete) :
    ∃ b' resolved commit,
      parseAndResolveFilter req.filter s.pipeline bookmarks session now = (b', .ok (resolved, commit)) ∧
      ∀ y ∈ s.arrived, lo ≤ y.seq → y.seq ≤ hi → matchesOpt? E resolved y = true → ∃ e ∈ reply.logs, e.SameRecord y := by
  have hinv : s.Inv := hr.invariant (RaceRun.inv_new capacity hcap initialSeq) fun _ _ _ h hg hs => h.step hg hs
  have hsettled : ∀ y ∈ s.arrived, s.pipeline.Settled y := fun y hy => hinv.settled y hy (by simp [hidle])
  obtain ⟨b', resolved, commit, l, u, hres, hw, hall⟩ := export_vouches hinv.sound hsettled hreply hc
  refine ⟨b', resolved, commit, hres, fun y hy hloy hyhi hm => ?_⟩
  obtain ⟨hpos, -, hmax⟩ := hinv.assigned y hy
  obtain ⟨hl, hu⟩ := window_encloses hreply hres hw hlo hhi hpos hmax hloy hyhi hm
  exact hall y hy hl hu hm

namespace RaceRun

/-- The export of `n..=n` without a filter. -/
def exportOne (n : ℕ) (h : n ≤ u64Max) : ExportRequest := ⟨none, none, some n, some n, by simpa using h⟩

/-- The checks of `admitsAppend` that can fail. -/
def admitsAppend? (s : RaceRun) : RaceAct → Bool
  | .assign _ => s.pipeline.seq + 1 < u64Max
  | .span => s.pipeline.seq + 1 < u64Max
  | .advance =>
    match s.flight with
    | some ⟨_, _, .append e⟩ => s.pipeline.store.admitFrom ≤ e.seq || e.seq < s.pipeline.store.lostBelow
    | _ => true
  | _ => true

theorem admitsAppend_of_check (s : RaceRun) (a : RaceAct) (h : s.admitsAppend? a = true) : s.admitsAppend a := by
  cases a with
  | assign entry =>
    show s.pipeline.seq + 1 < u64Max
    exact of_decide_eq_true h
  | span =>
    show s.pipeline.seq + 1 < u64Max
    exact of_decide_eq_true h
  | advance =>
    intro f hf e he
    obtain ⟨entry, active, stage⟩ := f
    obtain rfl : stage = .append e := he
    rw [Option.mem_def] at hf
    simpa [admitsAppend?, hf] using h
  | readCounter => trivial
  | clearThrough n => trivial
  | configure sessions => trivial
  | resizePreBuffer size => trivial

/-- A clear that read the counter before the entry clears while it is on its
way. -/
def clearBeforeEntry : List RaceAct :=
  [.readCounter, .assign (.blank 0), .clearThrough 0, .advance, .advance, .advance, .advance]

/-- What that run leaves: the entry. -/
def onlyFirst : RaceRun where
  pipeline :=
    { store := { InMemoryStore.new 4 four_le_u64Max with
        entries := [LogEntry.blank 1], totalStored := 1, totalReceived := 1, admitFrom := 1 }
      preBuffer := .new 0
      seq := 1
      epochs := ⟨[⟨0, ⟨[]⟩⟩], 0, List.pairwise_singleton _ _⟩
      events := [] }
  sessions := .new
  arrived := [.blank 1]
  flight := none
  readings := []

/-- A clear that read the counter after the entry clears while it is on its
way. -/
def clearAfterEntry : List RaceAct :=
  [.assign (.blank 0), .readCounter, .clearThrough 1, .advance, .advance, .advance, .advance]

/-- An entry arrives and is processed. -/
def oneMore : List RaceAct := [.assign (.blank 0), .advance, .advance, .advance, .advance]

/-- What the clear leaves of the first entry: nothing. -/
def noneHeld : RaceRun where
  pipeline :=
    { store := { InMemoryStore.new 4 four_le_u64Max with totalReceived := 1, admitFrom := 2 }
      preBuffer := .new 0
      seq := 1
      epochs := ⟨[⟨0, ⟨[]⟩⟩], 0, List.pairwise_singleton _ _⟩
      events := [] }
  sessions := .new
  arrived := [.blank 1]
  flight := none
  readings := []

/-- And with the second entry. -/
def onlySecond : RaceRun where
  pipeline :=
    { store := { InMemoryStore.new 4 four_le_u64Max with
        entries := [LogEntry.blank 2], totalStored := 1, totalReceived := 2, admitFrom := 2 }
      preBuffer := .new 0
      seq := 2
      epochs := ⟨[⟨0, ⟨[]⟩⟩], 0, List.pairwise_singleton _ _⟩
      events := [] }
  sessions := .new
  arrived := [.blank 1, .blank 2]
  flight := none
  readings := []

end RaceRun

theorem complete_survives_clears_one :
    Reach (RaceRun.step .ascii ⟨"default"⟩) RaceRun.admitsAppend (.new 4 (by decide) 0) RaceRun.onlyFirst ∧
    ∃ b reply, handleLogsExport .ascii RaceRun.onlyFirst.pipeline .new ⟨"a", by decide⟩
        (RaceRun.exportOne 1 (by decide)) 0 = (b, .ok reply) ∧ reply.verdict = .complete ∧
      ∃ e ∈ reply.logs, e.SameRecord (.blank 1) := by
  have hrun : runActs (guarded (RaceRun.step .ascii ⟨"default"⟩) RaceRun.admitsAppend?) (.new 4 (by decide) 0)
      RaceRun.clearBeforeEntry = some RaceRun.onlyFirst := rfl
  have hr : Reach (RaceRun.step .ascii ⟨"default"⟩) RaceRun.admitsAppend (.new 4 (by decide) 0) RaceRun.onlyFirst :=
    reach_guarded RaceRun.admitsAppend_of_check _ .start hrun
  refine ⟨hr, _, _, rfl, rfl, ?_⟩
  obtain ⟨b', resolved, commit, hres, hall⟩ := complete_survives_clears .ascii ⟨"default"⟩ 4 (by decide) 0 hr rfl .new
    ⟨"a", by decide⟩ (RaceRun.exportOne 1 (by decide)) 0 rfl rfl rfl rfl
  obtain ⟨rfl, rfl⟩ : resolved = none ∧ commit = none := by
    have := congrArg Prod.snd hres
    simpa [parseAndResolveFilter, RaceRun.exportOne, eq_comm] using this
  exact hall _ List.mem_cons_self (by decide) (by decide) rfl

/-- **A clear between an entry's seq and its append.** The entry, which no
filter refuses, is assigned 1; a clear reads 1 and clears through it; the
ring refuses the entry, and once the next one is stored the export of 1..=1 is
`complete` and empty. -/
theorem complete_misses_refused : ∃ s : RaceRun,
    runActs (RaceRun.step .ascii ⟨"default"⟩) (.new 4 (by decide) 0)
      (RaceRun.clearAfterEntry ++ RaceRun.oneMore) = some s ∧
    s.flight = none ∧ LogEntry.blank 1 ∈ s.arrived ∧
    (s.sessions.evaluateFiltersForDomain .ascii ⟨"default"⟩ (.blank 1)).shouldStore = true ∧
    ∃ b reply, handleLogsExport .ascii s.pipeline .new ⟨"a", by decide⟩ (RaceRun.exportOne 1 (by decide)) 0 =
        (b, .ok reply) ∧ reply.verdict = .complete ∧ reply.logs = [] := by
  have hclear : runActs (RaceRun.step .ascii ⟨"default"⟩) (.new 4 (by decide) 0) RaceRun.clearAfterEntry =
      some RaceRun.noneHeld := rfl
  have hmore : runActs (RaceRun.step .ascii ⟨"default"⟩) RaceRun.noneHeld RaceRun.oneMore =
      some RaceRun.onlySecond := rfl
  refine ⟨RaceRun.onlySecond, ?_, rfl, List.mem_cons_self, rfl, _, _, rfl, rfl, rfl⟩
  rw [runActs_append, hclear]
  exact hmore

end Logmon
