/-
# Processing one log entry

`daemon/log_processor.rs`: an arriving entry gets its seq, the triggers of the
sessions bound to the domain see it, it joins the pre-trigger buffer, and it
is stored unless the domain's filters, with no post-window open, refuse it.

What happens to the records that arrived (`LogPipeline.Settled`): the ring
holds one, or its seq lies below the loss floor, or the epoch log has its seq
dark. Each part of the processing keeps what is settled (`LogPipeline.Keeps`)
and keeps the ring and the buffer made of arrived records
(`LogPipeline.Sound`); at its end the entry itself is settled
(`storeEntry_stored`).

Key definitions: `processEntryForDomain`, `LogPipeline.Sound`,
`LogPipeline.Settled`, `LogPipeline.Through`.
Key theorems: `sessionTurns_through`, `storeEntry_stored`.
-/
import Logmon.Daemon.Session
import Logmon.Store.Cursor

namespace Logmon

open Lib

/-! ### The parts of the processing -/

/-- The session's post-window counts down, and its triggers see the entry. -/
def evaluateSession (E : TextEnv) (s : SessionRegistry) (sid : SessionId) (entry : LogEntry) :
    SessionRegistry × Bool × List TriggerMatch :=
  let (s, active) := s.decrementPostWindow sid
  let (s, fired) := s.evaluateTriggers E sid entry
  (s, active, fired)

/-- Always store the triggering entry. -/
def storeTriggering (p : LogPipeline) (entry : LogEntry) : LogPipeline :=
  if p.containsSeq entry.seq then p else p.appendToStore { entry with source := .preTrigger }

def maxPre (fired : List TriggerMatch) : ℕ := (fired.map TriggerMatch.preWindow).foldl max 0

def maxPost (fired : List TriggerMatch) : ℕ := (fired.map TriggerMatch.postWindow).foldl max 0

/-- The pre-window, then the trace's other entries still buffered, and the
buffer left. -/
def flushBatch (p : LogPipeline) (entry : LogEntry) (fired : List TriggerMatch) : PreTriggerBuffer × List LogEntry :=
  let (buffer, window) := p.preBuffer.flush (maxPre fired)
  let byTrace := match entry.traceId with
    | none => []
    | some t => buffer.entriesByTraceId t
  (buffer, (window ++ byTrace).map fun e => { e with source := .preTrigger })

/-- They are stored as one batch. -/
def flushPreWindow (p : LogPipeline) (entry : LogEntry) (fired : List TriggerMatch) : LogPipeline :=
  let (buffer, batch) := flushBatch p entry fired
  ({ p with preBuffer := buffer } : LogPipeline).insertSorted batch

/-- The records just before the match, without the match. -/
def contextBefore (p : LogPipeline) (entry : LogEntry) (m : TriggerMatch) : List LogEntry :=
  let context := p.store.contextBySeq entry.seq m.notifyContext 0
  if context.getLast?.any (fun e => e.seq = entry.seq) then context.dropLast else context

def eventFor (p : LogPipeline) (sid : SessionId) (entry : LogEntry) (preTriggerFlushed : ℕ) (m : TriggerMatch) :
    PipelineEvent :=
  { sessionId := sid.name.text, triggerId := m.id, triggerDescription := m.description,
    filterString := m.filterString, matchedEntry := entry, contextBefore := contextBefore p entry m,
    preTriggerFlushed, preWindow := m.preWindow, postWindowSize := m.postWindow,
    notifyContext := m.notifyContext, oneshot := m.oneshot, traceId := entry.traceId }

/-- One match is sent or queued, and a oneshot trigger removed after it. -/
def notifyMatch (sid : SessionId) (entry : LogEntry) (preTriggerFlushed : ℕ) (x : LogPipeline × SessionRegistry)
    (m : TriggerMatch) : LogPipeline × SessionRegistry :=
  let event := eventFor x.1 sid entry preTriggerFlushed m
  let s := x.2.sendOrQueueNotification sid event
  (x.1.sendEvent event, if m.oneshot then s.removeTrigger sid m.id else s)

def syncPreBufferSizeForDomain (p : LogPipeline) (s : SessionRegistry) (domain : DomainId) : LogPipeline :=
  p.resizePreBuffer (s.maxPreWindowForDomain domain)

/-- The rest of a session's turn: its post-window, its notifications, and the
buffer's size when a oneshot trigger went. -/
def notifySession (p : LogPipeline) (s : SessionRegistry) (domain : DomainId) (sid : SessionId) (entry : LogEntry)
    (fired : List TriggerMatch) : LogPipeline × SessionRegistry :=
  let (p, s) := fired.foldl (notifyMatch sid entry (maxPre fired)) (p, s.extendPostWindow sid (maxPost fired))
  (if fired.any TriggerMatch.oneshot then syncPreBufferSizeForDomain p s domain else p, s)

/-- What the loop over the sessions carries. -/
structure Turns where
  pipeline : LogPipeline
  sessions : SessionRegistry
  anyPostWindowActive : Bool

/-- One session's turn. -/
def sessionTurn (E : TextEnv) (domain : DomainId) (entry : LogEntry) (x : Turns) (sid : SessionId) : Turns :=
  let (s, active, fired) := evaluateSession E x.sessions sid entry
  if fired.isEmpty then ⟨x.pipeline, s, x.anyPostWindowActive || active⟩
  else
    let p := flushPreWindow (storeTriggering x.pipeline entry) entry fired
    let (p, s) := notifySession p s domain sid entry fired
    ⟨p, s, true⟩

/-- The union of the domain's filters decides, and the epoch log records under
which policy: what is to be stored, if anything. -/
def judgeEntry (E : TextEnv) (p : LogPipeline) (s : SessionRegistry) (domain : DomainId) (entry : LogEntry) :
    LogPipeline × Option LogEntry :=
  let decision := s.evaluateFiltersForDomain E domain entry
  (p.observe entry.seq decision.policy,
   if decision.shouldStore then
     some { entry with matchedFilters := decision.matchedDescriptions, source := .filter }
   else none)

/-- Storage, if the trigger logic has not stored the entry already. -/
def storeEntry (E : TextEnv) (p : LogPipeline) (s : SessionRegistry) (domain : DomainId) (entry : LogEntry)
    (active : Bool) : LogPipeline :=
  if p.containsSeq entry.seq then p
  else if active then p.appendToStore { entry with source := .postTrigger }
  else
    match judgeEntry E p s domain entry with
    | (p, none) => p
    | (p, some e) => p.appendToStore e

/-- The entry under the seq it is assigned. -/
def assigned (p : LogPipeline) (entry : LogEntry) : LogEntry := entry.withSeq p.nextSeq p.nextSeq_le

def processEntryForDomain (E : TextEnv) (p : LogPipeline) (s : SessionRegistry) (domain : DomainId)
    (entry : LogEntry) : LogPipeline × SessionRegistry :=
  let entry := assigned p entry
  let p := p.assignSeq
  let x := (s.activeSessionIdsSortedByPreWindowForDomain domain).foldl (sessionTurn E domain entry) ⟨p, s, false⟩
  let p := x.pipeline.preBufferAppend entry
  (storeEntry E p x.sessions domain entry x.anyPostWindowActive, x.sessions)

/-! ### What is settled -/

namespace LogPipeline

/-- The ring holds the record, whyever it kept it. -/
def Held (p : LogPipeline) (y : LogEntry) : Prop := ∃ e ∈ p.store.entries, e.SameRecord y

/-- The loss floor is past the record, or has nowhere left to go. -/
def Lost (p : LogPipeline) (y : LogEntry) : Prop := satAdd y.seq 1 ≤ p.store.lostBelow

/-- The ring holds the record, or lost it, or its seq is dark. -/
def Settled (p : LogPipeline) (y : LogEntry) : Prop := p.Held y ∨ p.Lost y ∨ p.epochs.Dark y.seq

theorem le_of_not_lost {p : LogPipeline} {y : LogEntry} (h : ¬ p.Lost y) : p.store.lostBelow ≤ y.seq := by
  have hle := satAdd_le_add y.seq 1
  unfold Lost at h
  omega

/-- What is settled in one stays settled in the other. -/
def Keeps (p p' : LogPipeline) : Prop := ∀ y : LogEntry, p.Settled y → p'.Settled y

theorem Keeps.refl (p : LogPipeline) : p.Keeps p := fun _ h => h

theorem Keeps.trans {p p' p'' : LogPipeline} (h : p.Keeps p') (h' : p'.Keeps p'') : p.Keeps p'' :=
  fun y hs => h' y (h y hs)

/-- The ring and the pre-trigger buffer are made of arrived records, which
have seqs of their own. -/
structure Sound (arrived : List LogEntry) (p : LogPipeline) : Prop where
  wf : p.store.WF
  ring : ∀ e ∈ p.store.entries, ∃ y ∈ arrived, e.SameRecord y
  buffer : ∀ e ∈ p.preBuffer.held, ∃ y ∈ arrived, e.SameRecord y
  distinct : (arrived.map LogEntry.seq).Nodup

/-- One part of the processing: it keeps what is sound and settled, and leaves
the epochs, the counter and the admission floor alone. -/
structure Through (arrived : List LogEntry) (p p' : LogPipeline) : Prop where
  sound : Sound arrived p'
  keeps : p.Keeps p'
  epochs : p'.epochs = p.epochs
  seq : p'.seq = p.seq
  admitFrom : p'.store.admitFrom = p.store.admitFrom

variable {arrived : List LogEntry} {p p' p'' : LogPipeline}

theorem sound_new (capacity : ℕ) (h : capacity ≤ u64Max) (initialSeq : ℕ) :
    Sound [] (newWithSeq capacity h initialSeq) where
  wf := InMemoryStore.wf_new capacity h
  ring := by simp [newWithSeq, InMemoryStore.new]
  buffer := by simp [newWithSeq, PreTriggerBuffer.new, PreTriggerBuffer.held]
  distinct := List.nodup_nil

/-- A new arrival's seq is its own. -/
theorem Sound.arrive (h : Sound arrived p) (hseq : p.seq < u64Max) (hle : ∀ y ∈ arrived, y.seq ≤ p.seq)
    (entry : LogEntry) : Sound (arrived ++ [assigned p entry]) p.assignSeq := by
  have hn : (assigned p entry).seq = p.seq + 1 := nextSeq_eq hseq
  refine ⟨h.wf, fun x hx => ?_, fun x hx => ?_, ?_⟩
  · obtain ⟨y, hy, hrec⟩ := h.ring x hx
    exact ⟨y, List.mem_append_left _ hy, hrec⟩
  · obtain ⟨y, hy, hrec⟩ := h.buffer x hx
    exact ⟨y, List.mem_append_left _ hy, hrec⟩
  · rw [List.map_append, List.map_singleton, List.nodup_append]
    refine ⟨h.distinct, List.nodup_singleton _, fun a ha b hb => ?_⟩
    obtain ⟨y, hy, rfl⟩ := List.mem_map.mp ha
    have := hle y hy
    rw [List.mem_singleton.mp hb]
    omega

theorem Sound.through_refl (h : Sound arrived p) : Through arrived p p := ⟨h, .refl p, rfl, rfl, rfl⟩

theorem Through.trans (h : Through arrived p p') (h' : Through arrived p' p'') : Through arrived p p'' :=
  ⟨h'.sound, h.keeps.trans h'.keeps, h'.epochs.trans h.epochs, h'.seq.trans h.seq, h'.admitFrom.trans h.admitFrom⟩

/-- Only the buffer changes, and loses at most. -/
theorem Sound.congr (h : Sound arrived p) (hs : p'.store = p.store)
    (hb : ∀ e ∈ p'.preBuffer.held, e ∈ p.preBuffer.held) (he : p'.epochs = p.epochs) (hseq : p'.seq = p.seq) :
    Through arrived p p' := by
  refine ⟨⟨hs ▸ h.wf, hs ▸ h.ring, fun e hmem => h.buffer e (hb e hmem), h.distinct⟩, fun y hy => ?_, he, hseq,
    by rw [hs]⟩
  unfold Settled Held Lost at hy ⊢
  rw [hs, he]
  exact hy

/-- A record at the ring's seq is the arrived one. -/
theorem Sound.held_of_contains (h : Sound arrived p) {y : LogEntry} (hy : y ∈ arrived)
    (hc : p.containsSeq y.seq = true) : p.Held y := by
  obtain ⟨e, he, hseq⟩ := (InMemoryStore.holds_iff h.wf.asc y.seq).mp hc
  obtain ⟨z, hz, hrec⟩ := h.ring e he
  obtain rfl : z = y := List.inj_on_of_nodup_map h.distinct hz hy (hrec.seq.symm.trans hseq)
  exact ⟨e, he, hrec⟩

/-- The ring changes as its writers change it. -/
theorem keeps_of_evolves {r' : InMemoryStore} (hev : p.store.Evolves r') : p.Keeps { p with store := r' } := by
  intro y hs
  rcases hs with ⟨e, he, hrec⟩ | hlost | hdark
  · rcases hev.kept_or_lost e he with he' | hlost
    · exact .inl ⟨e, he', hrec⟩
    · rw [hrec.seq] at hlost
      exact .inr (.inl hlost)
  · exact .inr (.inl (le_trans hlost hev.lost_mono))
  · exact .inr (.inr hdark)

/-- An offer of arrived records. -/
theorem Sound.offer (h : Sound arrived p) {batch : List LogEntry}
    (hb : ∀ e ∈ batch, ∃ y ∈ arrived, e.SameRecord y) :
    Through arrived p { p with store := p.store.offer batch } := by
  refine ⟨⟨h.wf.offer batch, fun e he => ?_, h.buffer, h.distinct⟩, keeps_of_evolves (h.wf.evolves_offer batch), rfl,
    rfl, InMemoryStore.offer_admitFrom _ _⟩
  by_cases hold : e ∈ p.store.entries
  · exact h.ring e hold
  · have hadm := (h.wf.mem_admitted).mp (InMemoryStore.mem_admitted_of_new he hold)
    exact hb e (List.mem_of_find?_eq_some hadm.1)

theorem Sound.append (h : Sound arrived p) {e : LogEntry} (he : ∃ y ∈ arrived, e.SameRecord y) :
    Through arrived p (p.appendToStore e) := by
  unfold appendToStore
  rw [h.wf.append_eq_offer]
  exact h.offer fun e' he' => by
    rw [List.mem_singleton.mp he']
    exact he

theorem Sound.insertSorted (h : Sound arrived p) {batch : List LogEntry}
    (hb : ∀ e ∈ batch, ∃ y ∈ arrived, e.SameRecord y) : Through arrived p (p.insertSorted batch) := by
  unfold LogPipeline.insertSorted
  rw [h.wf.insertSorted_eq_offer]
  exact h.offer hb

theorem Sound.clearThrough (h : Sound arrived p) (n : ℕ) :
    Sound arrived (p.clearThrough n) ∧ p.Keeps (p.clearThrough n) := by
  refine ⟨⟨h.wf.clearThrough n, fun e he => ?_, h.buffer, h.distinct⟩,
    keeps_of_evolves (h.wf.evolves (.clearThrough n))⟩
  have hnil : (p.store.clearThrough n).entries = [] := by
    unfold InMemoryStore.clearThrough
    rw [InMemoryStore.clearLocked_eq h.wf.asc]
  exact absurd (hnil ▸ he) List.not_mem_nil

/-- **An arrived record that is appended is settled**, unless the admission
floor alone refuses it. -/
theorem Sound.append_settles (h : Sound arrived p) {e y : LogEntry} (hy : y ∈ arrived) (hrec : e.SameRecord y)
    (hadmitted : p.store.admitFrom ≤ y.seq ∨ p.Held y ∨ p.Lost y) : (p.appendToStore e).Settled y := by
  have hkeeps := (h.append ⟨y, hy, hrec⟩).keeps
  by_cases hdone : p.Held y ∨ p.Lost y
  · exact hkeeps y (hdone.imp_right .inl)
  · rw [not_or] at hdone
    have hadmitted : p.store.admitFrom ≤ y.seq := by
      rcases hadmitted with h | h | h
      · exact h
      · exact absurd h hdone.1
      · exact absurd h hdone.2
    have hfresh : ∀ x ∈ p.store.entries, x.seq ≠ e.seq := by
      intro x hx hseq
      obtain ⟨z, hz, hxz⟩ := h.ring x hx
      obtain rfl : z = y :=
        List.inj_on_of_nodup_map h.distinct hz hy (hxz.seq.symm.trans (hseq.trans hrec.seq))
      exact hdone.1 ⟨x, hx, hxz⟩
    have hadm : e ∈ p.store.admitted [e] := by
      refine h.wf.mem_admitted.mpr ⟨by simp [firstWith], hfresh, ?_, ?_⟩
      · rw [hrec.seq]
        exact le_of_not_lost hdone.2
      · rw [hrec.seq]
        exact hadmitted
    unfold appendToStore
    rw [h.wf.append_eq_offer]
    rcases InMemoryStore.mem_overflow_or_keptOf (r := p.store) (Or.inr hadm) with hover | hkept
    · right
      left
      show satAdd y.seq 1 ≤ (p.store.offer [e]).lostBelow
      rw [InMemoryStore.offer_lostBelow, ← hrec.seq]
      exact (InMemoryStore.le_lostAfter (p.store.overflow (p.store.admitted [e])) p.store.lostBelow).2 e hover
    · left
      refine ⟨e, ?_, hrec⟩
      show e ∈ (p.store.offer [e]).entries
      rw [InMemoryStore.offer_entries]
      exact hkept

/-- A decision for a later seq leaves the earlier ones settled. -/
theorem Settled.observe {seq : ℕ} {policy : FilterPolicy} {y : LogEntry} (hy : p.Settled y) (hlt : y.seq < seq) :
    (p.observe seq policy).Settled y := by
  rcases hy with hheld | hlost | hdark
  · exact .inl hheld
  · exact .inr (.inl hlost)
  · exact .inr (.inr (hdark.observe hlt))

end LogPipeline

open LogPipeline

/-! ### Each part keeps it -/

variable {E : TextEnv} {domain : DomainId} {arrived : List LogEntry} {p : LogPipeline} {entry : LogEntry}

theorem storeTriggering_through (h : Sound arrived p) (hentry : entry ∈ arrived) :
    Through arrived p (storeTriggering p entry) := by
  unfold storeTriggering
  split
  · exact h.through_refl
  · exact h.append ⟨entry, hentry, LogEntry.sameRecord_source entry _⟩

/-- The batch a flush stores is made of buffered records. -/
theorem flushBatch_made (h : Sound arrived p) (entry : LogEntry) (fired : List TriggerMatch) :
    ∀ e ∈ (flushBatch p entry fired).2, ∃ y ∈ arrived, e.SameRecord y := by
  obtain ⟨hleft, htaken⟩ := PreTriggerBuffer.mem_flush (b := p.preBuffer) (n := maxPre fired)
  intro e he
  obtain ⟨x, hx, rfl⟩ := List.mem_map.mp he
  have hbuffered : x ∈ p.preBuffer.held := by
    rcases List.mem_append.mp hx with hx | hx
    · exact htaken x hx
    · split at hx
      · simp at hx
      · exact hleft x (PreTriggerBuffer.mem_entriesByTraceId hx)
  obtain ⟨y, hy, hrec⟩ := h.buffer x hbuffered
  exact ⟨y, hy, (LogEntry.sameRecord_source x _).trans hrec⟩

/-- The buffer loses what is flushed. -/
theorem flushBatch_through (h : Sound arrived p) (entry : LogEntry) (fired : List TriggerMatch) :
    Through arrived p { p with preBuffer := (flushBatch p entry fired).1 } :=
  h.congr rfl (PreTriggerBuffer.mem_flush (b := p.preBuffer) (n := maxPre fired)).1 rfl rfl

theorem flushPreWindow_through (h : Sound arrived p) (fired : List TriggerMatch) :
    Through arrived p (flushPreWindow p entry fired) := by
  have hflushed := flushBatch_through h entry fired
  exact hflushed.trans (hflushed.sound.insertSorted (flushBatch_made h entry fired))

theorem notifyMatches_frame (sid : SessionId) (flushed : ℕ) : ∀ (fired : List TriggerMatch)
    (x : LogPipeline × SessionRegistry), (fired.foldl (notifyMatch sid entry flushed) x).1.store = x.1.store ∧
      (fired.foldl (notifyMatch sid entry flushed) x).1.preBuffer = x.1.preBuffer ∧
      (fired.foldl (notifyMatch sid entry flushed) x).1.epochs = x.1.epochs ∧
      (fired.foldl (notifyMatch sid entry flushed) x).1.seq = x.1.seq
  | [], _ => ⟨rfl, rfl, rfl, rfl⟩
  | m :: fired, x => notifyMatches_frame sid flushed fired (notifyMatch sid entry flushed x m)

theorem notifySession_through (h : Sound arrived p) (s : SessionRegistry) (sid : SessionId)
    (fired : List TriggerMatch) : Through arrived p (notifySession p s domain sid entry fired).1 := by
  obtain ⟨h1, h2, h3, h4⟩ := @notifyMatches_frame entry sid (maxPre fired) fired
    (p, s.extendPostWindow sid (maxPost fired))
  unfold notifySession
  dsimp only
  split
  · refine h.congr h1 (fun e he => ?_) h3 h4
    have := PreTriggerBuffer.mem_resize he
    rwa [h2] at this
  · exact h.congr h1 (by rw [h2]; exact fun _ he => he) h3 h4

theorem sessionTurn_through {x : Turns} (h : Sound arrived x.pipeline) (hentry : entry ∈ arrived) (sid : SessionId) :
    Through arrived x.pipeline (sessionTurn E domain entry x sid).pipeline := by
  unfold sessionTurn
  dsimp only
  split
  · exact h.through_refl
  · have h1 := storeTriggering_through h hentry
    have h2 := @flushPreWindow_through _ _ entry h1.sound (evaluateSession E x.sessions sid entry).2.2
    exact (h1.trans h2).trans (notifySession_through h2.sound _ _ _)

/-- **The loop over the sessions keeps it.** -/
theorem sessionTurns_through (hentry : entry ∈ arrived) : ∀ (sids : List SessionId) {x : Turns},
    Sound arrived x.pipeline → Through arrived x.pipeline (sids.foldl (sessionTurn E domain entry) x).pipeline
  | [], _, h => h.through_refl
  | sid :: sids, x, h => by
    have h1 := @sessionTurn_through E domain _ _ _ h hentry sid
    exact h1.trans (sessionTurns_through hentry sids h1.sound)

theorem preBufferAppend_through (h : Sound arrived p) (hentry : entry ∈ arrived) :
    Through arrived p (p.preBufferAppend entry) := by
  refine ⟨⟨h.wf, h.ring, fun e he => ?_, h.distinct⟩, fun _ hy => hy, rfl, rfl, rfl⟩
  rcases PreTriggerBuffer.mem_append he with he | rfl
  · exact h.buffer e he
  · exact ⟨e, hentry, .refl e⟩

/-- The filters' decision: the entry is dark unless it is to be stored. -/
theorem judgeEntry_dark (s : SessionRegistry) (hupto : p.epochs.Upto entry.seq)
    (hnone : (judgeEntry E p s domain entry).2 = none) :
    (judgeEntry E p s domain entry).1.epochs.Dark entry.seq := by
  refine EpochLog.dark_observe_self hupto (SessionRegistry.filtered_of_not_stored ?_)
  simpa [judgeEntry] using hnone

theorem judgeEntry_sameRecord (s : SessionRegistry) {e : LogEntry}
    (hsome : (judgeEntry E p s domain entry).2 = some e) : e.SameRecord entry := by
  simp only [judgeEntry] at hsome
  split at hsome
  · obtain rfl := Option.some.inj hsome
    exact LogEntry.sameRecord_matched entry _ _
  · simp at hsome

/-- What the end of the processing leaves. -/
structure Stored (arrived : List LogEntry) (entry : LogEntry) (p p' : LogPipeline) : Prop where
  sound : Sound arrived p'
  settled : p'.Settled entry
  keeps : ∀ y : LogEntry, y.seq < entry.seq → p.Settled y → p'.Settled y
  upto : p'.epochs.Upto entry.seq
  seq : p'.seq = p.seq
  admitFrom : p'.store.admitFrom = p.store.admitFrom

/-- **At its end the entry is settled**, where the admission floor has not
passed it. -/
theorem storeEntry_stored (h : Sound arrived p) (hentry : entry ∈ arrived)
    (hadmitted : p.store.admitFrom ≤ entry.seq ∨ p.Held entry ∨ p.Lost entry) (hupto : p.epochs.Upto entry.seq) (s : SessionRegistry)
    (active : Bool) : Stored arrived entry p (storeEntry E p s domain entry active) := by
  unfold storeEntry
  split
  · rename_i hc
    exact ⟨h, .inl (h.held_of_contains hentry hc), fun _ _ hy => hy, hupto, rfl, rfl⟩
  split
  · have happend := h.append ⟨entry, hentry, LogEntry.sameRecord_source entry .postTrigger⟩
    refine ⟨happend.sound, ?_, fun y _ hy => happend.keeps y hy, hupto, rfl, happend.admitFrom⟩
    exact h.append_settles hentry (LogEntry.sameRecord_source entry _) hadmitted
  · -- the filters decide
    have hsound : Sound arrived (judgeEntry E p s domain entry).1 := ⟨h.wf, h.ring, h.buffer, h.distinct⟩
    have hupto' : (judgeEntry E p s domain entry).1.epochs.Upto entry.seq := hupto.observe
    split
    · rename_i p' hj
      have hdark := @judgeEntry_dark E domain _ _ s hupto (by rw [hj])
      have hkeeps : ∀ y : LogEntry, y.seq < entry.seq → p.Settled y →
          (judgeEntry E p s domain entry).1.Settled y := fun y hlt hy => hy.observe hlt
      have hseq : (judgeEntry E p s domain entry).1.seq = p.seq := rfl
      have hstore : (judgeEntry E p s domain entry).1.store = p.store := rfl
      rw [hj] at hsound hupto' hdark hkeeps hseq hstore
      exact ⟨hsound, .inr (.inr hdark), hkeeps, hupto', hseq, by rw [hstore]⟩
    · rename_i p' e hj
      have hrec := @judgeEntry_sameRecord E domain p _ s _ (by rw [hj])
      have hkeeps : ∀ y : LogEntry, y.seq < entry.seq → p.Settled y →
          (judgeEntry E p s domain entry).1.Settled y := fun y hlt hy => hy.observe hlt
      have hseq : (judgeEntry E p s domain entry).1.seq = p.seq := rfl
      have hstore : (judgeEntry E p s domain entry).1.store = p.store := rfl
      rw [hj] at hsound hupto' hkeeps hseq hstore
      have happend := hsound.append ⟨entry, hentry, hrec⟩
      refine ⟨happend.sound, ?_, fun y hlt hy => happend.keeps y (hkeeps y hlt hy), hupto',
        hseq, happend.admitFrom.trans (by rw [hstore])⟩
      refine hsound.append_settles hentry hrec ?_
      unfold Held Lost at hadmitted ⊢
      rw [hstore]
      exact hadmitted

end Logmon
