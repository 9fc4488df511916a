/-
# A trigger captures its context

What a trigger that fires promises: the entries before it that the buffer has
kept, the entry itself, and, through the session's post-window, the entries
after it. Each is then in the ring, or below one of its floors
(`LogPipeline.Captured`), which no later write undoes.

Sessions take their turns one after the other and drain the same buffer. The
entry that arrived `i` before this one is captured or still buffered at every
turn (`RecentCovered`), as long as no resize has cut the buffer below it. A resize
between turns follows the removal of a trigger; it leaves the buffer at least
as long as the largest pre-window there is (`TurnInv.covered`), so also for the
triggers of sessions whose turn is still to come.

Key definitions: `LogPipeline.Captured`, `RecentCovered`, `TurnInv`.
Key theorems: `captured_offer`, `TurnInv.turn`, `turns_capture`.
-/
import Logmon.Daemon.System

namespace Logmon

open Lib LogPipeline SessionRegistry

/-! ### Captured -/

namespace LogPipeline

/-- The ring holds the record, or one of its floors is past it. -/
def Captured (p : LogPipeline) (y : LogEntry) : Prop := p.Held y ∨ p.Lost y ∨ y.seq < p.store.admitFrom

/-- What is captured in one stays captured in the other. -/
def KeepsCaptured (p p' : LogPipeline) : Prop := ∀ y : LogEntry, p.Captured y → p'.Captured y

variable {arrived : List LogEntry} {p p' p'' : LogPipeline} {y : LogEntry}

theorem KeepsCaptured.refl (p : LogPipeline) : p.KeepsCaptured p := fun _ h => h

theorem KeepsCaptured.trans (h : p.KeepsCaptured p') (h' : p'.KeepsCaptured p'') : p.KeepsCaptured p'' :=
  fun y hy => h' y (h y hy)

theorem keepsCaptured_of_store (h : p'.store = p.store) : p.KeepsCaptured p' := by
  intro y hy
  unfold Captured Held Lost at hy ⊢
  rw [h]
  exact hy

/-- The ring changes as its writers change it. -/
theorem keepsCaptured_of_evolves {r' : InMemoryStore} (hev : p.store.Evolves r')
    (hadmits : p.store.admitFrom ≤ r'.admitFrom) : p.KeepsCaptured { p with store := r' } := by
  intro y hy
  rcases hy with ⟨e, he, hrec⟩ | hlost | hbelow
  · rcases hev.kept_or_lost e he with he' | hlost
    · exact .inl ⟨e, he', hrec⟩
    · rw [hrec.seq] at hlost
      exact .inr (.inl hlost)
  · exact .inr (.inl (le_trans hlost hev.lost_mono))
  · exact .inr (.inr (lt_of_lt_of_le hbelow hadmits))

theorem keepsCaptured_offer (h : p.store.WF) (batch : List LogEntry) :
    p.KeepsCaptured { p with store := p.store.offer batch } :=
  keepsCaptured_of_evolves (h.evolves_offer batch) (le_of_eq (InMemoryStore.offer_admitFrom _ _).symm)

theorem keepsCaptured_append (h : p.store.WF) (e : LogEntry) : p.KeepsCaptured (p.appendToStore e) := by
  unfold appendToStore
  rw [h.append_eq_offer]
  exact keepsCaptured_offer h [e]

theorem keepsCaptured_insertSorted (h : p.store.WF) (batch : List LogEntry) :
    p.KeepsCaptured (p.insertSorted batch) := by
  unfold LogPipeline.insertSorted
  rw [h.insertSorted_eq_offer]
  exact keepsCaptured_offer h batch

theorem keepsCaptured_clear (h : p.store.WF) (n : ℕ) : p.KeepsCaptured (p.clearThrough n) := by
  refine keepsCaptured_of_evolves (h.evolves (.clearThrough n)) ?_
  show p.store.admitFrom ≤ max p.store.clearLocked.admitFrom (satAdd n 1)
  rw [InMemoryStore.clearLocked_eq h.asc]
  exact le_max_left _ _

/-- **An arrived record that is offered is captured.** -/
theorem captured_offer (h : Sound arrived p) {batch : List LogEntry}
    (hbatch : ∀ e ∈ batch, ∃ z ∈ arrived, e.SameRecord z) {e : LogEntry} (he : e ∈ batch) (hy : y ∈ arrived)
    (hrec : e.SameRecord y) : Captured { p with store := p.store.offer batch } y := by
  by_cases hdone : p.Captured y
  · exact keepsCaptured_offer h.wf batch y hdone
  · unfold Captured at hdone
    rw [not_or, not_or] at hdone
    obtain ⟨hheld, hlost, hadmits⟩ := hdone
    -- the batch's first record with the seq is the same record
    obtain ⟨x, hx⟩ : ∃ x, firstWith LogEntry.seq y.seq batch = some x := by
      refine Option.isSome_iff_exists.mp (List.find?_isSome.mpr ⟨e, he, ?_⟩)
      simpa using hrec.seq
    have hxseq : x.seq = y.seq := by simpa using List.find?_some hx
    have hxrec : x.SameRecord y := by
      obtain ⟨z, hz, hxz⟩ := hbatch x (List.mem_of_find?_eq_some hx)
      obtain rfl : z = y := List.inj_on_of_nodup_map h.distinct hz hy (hxz.seq.symm.trans hxseq)
      exact hxz
    have hadm : x ∈ p.store.admitted batch := by
      refine h.wf.mem_admitted.mpr ⟨by rw [hxseq, hx], fun w hw hseq => hheld ?_, ?_, ?_⟩
      · obtain ⟨z, hz, hwz⟩ := h.ring w hw
        obtain rfl : z = y := List.inj_on_of_nodup_map h.distinct hz hy (hwz.seq.symm.trans (hseq.trans hxseq))
        exact ⟨w, hw, hwz⟩
      · rw [hxseq]
        exact le_of_not_lost hlost
      · rw [hxseq]
        exact Nat.not_lt.mp hadmits
    rcases InMemoryStore.mem_overflow_or_keptOf (r := p.store) (Or.inr hadm) with hover | hkept
    · right
      left
      show satAdd y.seq 1 ≤ (p.store.offer batch).lostBelow
      rw [InMemoryStore.offer_lostBelow, ← hxseq]
      exact (InMemoryStore.le_lostAfter (p.store.overflow (p.store.admitted batch)) p.store.lostBelow).2 x hover
    · left
      refine ⟨x, ?_, hxrec⟩
      show x ∈ (p.store.offer batch).entries
      rw [InMemoryStore.offer_entries]
      exact hkept

theorem captured_append (h : Sound arrived p) {e : LogEntry} (hy : y ∈ arrived) (hrec : e.SameRecord y) :
    (p.appendToStore e).Captured y := by
  unfold appendToStore
  rw [h.wf.append_eq_offer]
  refine captured_offer h (fun x hx => ?_) List.mem_cons_self hy hrec
  rw [List.mem_singleton.mp hx]
  exact ⟨y, hy, hrec⟩

end LogPipeline

/-! ### Pre-windows -/

theorem foldl_max_le {l : List ℕ} {a b : ℕ} (ha : a ≤ b) (hl : ∀ x ∈ l, x ≤ b) : l.foldl max a ≤ b := by
  rcases (InMemoryStore.foldl_max_spec l a).1 with h | h
  · rw [h]
    exact ha
  · exact hl _ h

theorem TriggerManager.preWindow_le {m : TriggerManager} {t : Trigger} (ht : t ∈ m.triggers) :
    t.preWindow ≤ m.maxPreWindow :=
  (InMemoryStore.foldl_max_spec _ 0).2.2 _ (List.mem_map_of_mem ht)

theorem TriggerManager.maxPreWindow_le {m m' : TriggerManager}
    (h : ∀ t ∈ m'.triggers, ∃ t0 ∈ m.triggers, t0.preWindow = t.preWindow) : m'.maxPreWindow ≤ m.maxPreWindow := by
  refine foldl_max_le (Nat.zero_le _) fun n hn => ?_
  obtain ⟨t, ht, rfl⟩ := List.mem_map.mp hn
  obtain ⟨t0, ht0, heq⟩ := h t ht
  rw [← heq]
  exact TriggerManager.preWindow_le ht0

/-- What fires is one of the triggers. -/
theorem TriggerManager.of_mem_evaluate {E : TextEnv} {m : TriggerManager} {entry : LogEntry} {x : TriggerMatch}
    (h : x ∈ (m.evaluate E entry).2) : ∃ t ∈ m.triggers, x = t.toMatch := by
  obtain ⟨t, ht, hsee⟩ := List.mem_filterMap.mp h
  refine ⟨t, ht, ?_⟩
  unfold Trigger.see at hsee
  split at hsee
  · cases hsee
  · split at hsee
    · exact (Option.some.inj hsee).symm
    · cases hsee

theorem preWindow_le_maxPre {fired : List TriggerMatch} {m : TriggerMatch} (h : m ∈ fired) : m.preWindow ≤ maxPre fired :=
  (InMemoryStore.foldl_max_spec _ 0).2.2 _ (List.mem_map_of_mem h)

theorem postWindow_le_maxPost {fired : List TriggerMatch} {m : TriggerMatch} (h : m ∈ fired) :
    m.postWindow ≤ maxPost fired :=
  (InMemoryStore.foldl_max_spec _ 0).2.2 _ (List.mem_map_of_mem h)

theorem dropOneshots_triggers : ∀ (fired : List TriggerMatch) (c : SessionState),
    (fired.foldl dropOneshot c).triggers.triggers.Sublist c.triggers.triggers
  | [], _ => .refl _
  | m :: fired, c => by
    refine (dropOneshots_triggers fired (dropOneshot c m)).trans ?_
    unfold dropOneshot
    split
    · exact List.eraseP_sublist
    · exact .refl _

/-- A turn adds no trigger and widens none. -/
theorem turnCore_maxPreWindow (E : TextEnv) (entry : LogEntry) (fired : List TriggerMatch) (c : SessionState) :
    (turnCore E entry fired c).triggers.maxPreWindow ≤ c.triggers.maxPreWindow := by
  have hseen : ∀ t ∈ (seenCore E entry c).triggers.triggers, ∃ t0 ∈ c.triggers.triggers, t0.preWindow = t.preWindow := by
    intro t ht
    obtain ⟨t1, ht1, rfl⟩ := List.mem_map.mp ht
    obtain ⟨t0, ht0, rfl⟩ := List.mem_map.mp ht1
    refine ⟨t0, ht0, ?_⟩
    show t0.preWindow = (t0.see E entry).1.preWindow
    unfold Trigger.see
    split
    · rfl
    · split <;> rfl
  refine TriggerManager.maxPreWindow_le fun t ht => hseen t ?_
  unfold turnCore at ht
  split at ht
  · exact ht
  · have hmem := (dropOneshots_triggers fired _).subset ht
    exact hmem

namespace SessionRegistry

variable {s s' : SessionRegistry} {domain : DomainId} {sid : SessionId} {c : SessionState}

theorem maxPreWindow_le_of_bound (h : (sid, c) ∈ s.bound domain) :
    c.triggers.maxPreWindow ≤ s.maxPreWindowForDomain domain := by
  rw [maxPreWindowForDomain_eq]
  refine (InMemoryStore.foldl_max_spec _ 0).2.2 _ ?_
  exact List.mem_map_of_mem (f := fun st : SessionState => st.triggers.maxPreWindow)
    (List.mem_map_of_mem (f := Prod.snd) h)

/-- Where no session's largest pre-window grows, the domain's does not. -/
theorem maxPreWindowForDomain_mono {g : SessionState → SessionState}
    (hg : ∀ c, (g c).triggers.maxPreWindow ≤ c.triggers.maxPreWindow)
    (hs : s'.bound domain = atId sid g (s.bound domain)) :
    s'.maxPreWindowForDomain domain ≤ s.maxPreWindowForDomain domain := by
  conv_lhs => rw [maxPreWindowForDomain_eq]
  refine foldl_max_le (Nat.zero_le _) fun n hn => ?_
  obtain ⟨c, hc, rfl⟩ := List.mem_map.mp hn
  obtain ⟨q, hq, rfl⟩ := List.mem_map.mp hc
  rw [hs] at hq
  obtain ⟨q0, hq0, rfl⟩ := List.mem_map.mp hq
  have hle := maxPreWindow_le_of_bound (show (q0.1, q0.2) ∈ s.bound domain from hq0)
  split
  · exact le_trans (hg _) hle
  · exact hle

end SessionRegistry

/-! ### A turn -/

/-- Each entry of `recent` (newest first, with the least capacity there has
been since it arrived) within reach is captured, or waits in the buffer. -/
def RecentCovered (recent : List (LogEntry × ℕ)) (reach : ℕ → Prop) (p : LogPipeline) : Prop :=
  ∀ i y f, recent[i]? = some (y, f) → i < f → reach i → p.Captured y ∨ p.preBuffer.Buffered i y

/-- Between two turns: no resize yet, or one that left the buffer long enough
for every trigger there is. -/
structure TurnInv (arrived : List LogEntry) (recent : List (LogEntry × ℕ)) (capacity : ℕ) (domain : DomainId)
    (x : Turns) : Prop where
  sound : Sound arrived x.pipeline
  ordered : x.pipeline.preBuffer.Ordered
  covered :
    RecentCovered recent (fun _ => True) x.pipeline ∧ x.pipeline.preBuffer.capacity = capacity ∨
    RecentCovered recent (fun i => i < x.pipeline.preBuffer.capacity) x.pipeline ∧
      x.sessions.maxPreWindowForDomain domain ≤ x.pipeline.preBuffer.capacity

section Turn

variable {E : TextEnv} {arrived : List LogEntry} {recent : List (LogEntry × ℕ)} {capacity : ℕ} {domain : DomainId}
  {p : LogPipeline} {entry y : LogEntry} {fired : List TriggerMatch}

theorem storeTriggering_captures (h : Sound arrived p) (hentry : entry ∈ arrived) :
    (storeTriggering p entry).Captured entry ∧ p.KeepsCaptured (storeTriggering p entry) ∧
      (storeTriggering p entry).preBuffer = p.preBuffer := by
  unfold storeTriggering
  split
  · rename_i hc
    exact ⟨.inl (h.held_of_contains hentry hc), .refl p, rfl⟩
  · exact ⟨captured_append h hentry (LogEntry.sameRecord_source entry _), keepsCaptured_append h.wf _, rfl⟩

/-- A flush captures what it takes. -/
theorem flushPreWindow_captures (h : Sound arrived p) (hy : y ∈ arrived)
    (htaken : y ∈ (p.preBuffer.flush (maxPre fired)).2) : (flushPreWindow p entry fired).Captured y := by
  have hflushed := flushBatch_through h entry fired
  unfold flushPreWindow LogPipeline.insertSorted
  dsimp only
  rw [h.wf.insertSorted_eq_offer]
  refine captured_offer hflushed.sound (flushBatch_made h entry fired) ?_ hy (LogEntry.sameRecord_source y .preTrigger)
  exact List.mem_map_of_mem (f := fun e : LogEntry => { e with source := .preTrigger }) (List.mem_append_left _ htaken)

theorem flushPreWindow_keeps (h : Sound arrived p) : p.KeepsCaptured (flushPreWindow p entry fired) := by
  have hflushed : p.KeepsCaptured { p with preBuffer := (flushBatch p entry fired).1 } := keepsCaptured_of_store rfl
  exact hflushed.trans (keepsCaptured_insertSorted h.wf _)

theorem flushPreWindow_preBuffer (p : LogPipeline) (entry : LogEntry) (fired : List TriggerMatch) :
    (flushPreWindow p entry fired).preBuffer = (p.preBuffer.flush (maxPre fired)).1 := rfl

/-- A flush leaves or captures what is covered. -/
theorem RecentCovered.flush {reach : ℕ → Prop} (h : RecentCovered recent reach p) (hsound : Sound arrived p)
    (hrecent : ∀ q ∈ recent, q.1 ∈ arrived) : RecentCovered recent reach (flushPreWindow p entry fired) := by
  intro i y f hi hf hreach
  have hy : y ∈ arrived := hrecent _ (List.mem_of_getElem? hi)
  rcases h i y f hi hf hreach with hcap | hbuf
  · exact .inl (flushPreWindow_keeps hsound y hcap)
  · rcases hbuf.flush_or_mem (maxPre fired) with hleft | htaken
    · exact .inr hleft
    · exact .inl (flushPreWindow_captures hsound hy htaken)

theorem RecentCovered.resize {reach : ℕ → Prop} {n : ℕ} (h : RecentCovered recent reach p) (hreach : ∀ i, i < n → reach i) :
    RecentCovered recent (fun i => i < n) (p.resizePreBuffer n) := by
  intro i y f hi hf hn
  rcases h i y f hi hf (hreach i hn) with hcap | hbuf
  · exact .inl (@keepsCaptured_of_store p (p.resizePreBuffer n) rfl y hcap)
  · exact .inr (hbuf.resize hn)

theorem RecentCovered.congr {reach : ℕ → Prop} {p' : LogPipeline} (h : RecentCovered recent reach p) (hs : p'.store = p.store)
    (hb : p'.preBuffer = p.preBuffer) : RecentCovered recent reach p' := by
  intro i y f hi hf hreach
  rcases h i y f hi hf hreach with hcap | hbuf
  · exact .inl (keepsCaptured_of_store hs y hcap)
  · rw [hb]
    exact .inr hbuf

/-- The notifications of a turn resize the buffer, to the sessions they leave,
or leave it. -/
theorem notifySession_cases (p : LogPipeline) (s : SessionRegistry) (sid : SessionId) (entry : LogEntry)
    (fired : List TriggerMatch) :
    (notifySession p s domain sid entry fired).1.store = p.store ∧
    ((notifySession p s domain sid entry fired).1.preBuffer = p.preBuffer ∨
     (notifySession p s domain sid entry fired).1.preBuffer =
       p.preBuffer.resize ((notifySession p s domain sid entry fired).2.maxPreWindowForDomain domain)) := by
  obtain ⟨h1, h2, -, -⟩ := @notifyMatches_frame entry sid (maxPre fired) fired (p, s.extendPostWindow sid (maxPost fired))
  unfold notifySession
  dsimp only
  split
  · refine ⟨h1, .inr ?_⟩
    unfold syncPreBufferSizeForDomain resizePreBuffer
    dsimp only
    rw [h2]
  · exact ⟨h1, .inl h2⟩

theorem sessionTurn_sessions (domain : DomainId) (x : Turns) (sid : SessionId)
    (hne : (evaluateSession E x.sessions sid entry).2.2.isEmpty = false) :
    (sessionTurn E domain entry x sid).sessions =
      (notifySession (flushPreWindow (storeTriggering x.pipeline entry) entry (evaluateSession E x.sessions sid entry).2.2)
        (evaluateSession E x.sessions sid entry).1 domain sid entry (evaluateSession E x.sessions sid entry).2.2).2 := by
  unfold sessionTurn
  dsimp only
  rw [if_neg (by rw [hne]; exact Bool.false_ne_true)]

/-- **A turn keeps the entries covered, and captures the context of what
fires in it.** -/
theorem TurnInv.turn {x : Turns} {sid : SessionId} (h : TurnInv arrived recent capacity domain x)
    (hentry : entry ∈ arrived) (hrecent : ∀ q ∈ recent, q.1 ∈ arrived)
    (hsid : sid ∈ (x.sessions.bound domain).map Prod.fst) :
    TurnInv arrived recent capacity domain (sessionTurn E domain entry x sid) ∧
    x.pipeline.KeepsCaptured (sessionTurn E domain entry x sid).pipeline ∧
    ∀ m ∈ (evaluateSession E x.sessions sid entry).2.2,
      (sessionTurn E domain entry x sid).pipeline.Captured entry ∧
      ∀ i y f, recent[i]? = some (y, f) → i < m.preWindow → m.preWindow ≤ f →
        (sessionTurn E domain entry x sid).pipeline.Captured y := by
  set fired := (evaluateSession E x.sessions sid entry).2.2 with hfired
  have hsound := (@sessionTurn_through E domain _ _ _ h.sound hentry sid).sound
  have hmono : (sessionTurn E domain entry x sid).sessions.maxPreWindowForDomain domain ≤
      x.sessions.maxPreWindowForDomain domain :=
    maxPreWindowForDomain_mono (turnCore_maxPreWindow E entry _) (bound_sessionTurn domain domain x sid)
  cases hempty : fired.isEmpty with
  | true =>
    have hpipe : (sessionTurn E domain entry x sid).pipeline = x.pipeline := by
      rw [(sessionTurn_eq domain x sid).1, ← hfired, if_pos hempty]
    refine ⟨⟨hsound, by rw [hpipe]; exact h.ordered, ?_⟩, by rw [hpipe]; exact .refl _, fun m hm => ?_⟩
    · rw [hpipe]
      exact h.covered.imp_right fun ⟨h1, h2⟩ => ⟨h1, le_trans hmono h2⟩
    · rw [List.isEmpty_iff.mp hempty] at hm
      exact absurd hm List.not_mem_nil
  | false =>
    set p1 := storeTriggering x.pipeline entry with hp1
    set p2 := flushPreWindow p1 entry fired with hp2
    obtain ⟨hown, hkeep1, hbuf1⟩ := storeTriggering_captures h.sound hentry
    have hsound1 := (storeTriggering_through h.sound hentry).sound
    have hkeep2 : p1.KeepsCaptured p2 := flushPreWindow_keeps hsound1
    have hpipe : (sessionTurn E domain entry x sid).pipeline =
        (notifySession p2 (evaluateSession E x.sessions sid entry).1 domain sid entry fired).1 := by
      rw [(sessionTurn_eq domain x sid).1, ← hfired, if_neg (by rw [hempty]; exact Bool.false_ne_true)]
    obtain ⟨hstore, hbuffer⟩ := @notifySession_cases domain p2 (evaluateSession E x.sessions sid entry).1 sid entry fired
    rw [← hpipe] at hstore hbuffer
    rw [← sessionTurn_sessions domain x sid (by rw [← hfired, hempty])] at hbuffer
    have hkeep3 : p2.KeepsCaptured (sessionTurn E domain entry x sid).pipeline := keepsCaptured_of_store hstore
    have hcap2 : p2.preBuffer.capacity = x.pipeline.preBuffer.capacity := by
      rw [flushPreWindow_preBuffer, (PreTriggerBuffer.flush_frame _ _).2, hbuf1]
    have hord2 : p2.preBuffer.Ordered := by
      rw [flushPreWindow_preBuffer, hbuf1]
      exact h.ordered.flush _
    have hcov1 : ∀ {reach : ℕ → Prop}, RecentCovered recent reach x.pipeline → RecentCovered recent reach p1 := by
      intro reach hcov i y f hi hf hreach
      rcases hcov i y f hi hf hreach with hc | hb
      · exact .inl (hkeep1 y hc)
      · rw [hbuf1]
        exact .inr hb
    have hcov2 : ∀ {reach : ℕ → Prop}, RecentCovered recent reach x.pipeline → RecentCovered recent reach p2 :=
      fun hcov => (hcov1 hcov).flush hsound1 hrecent
    refine ⟨⟨hsound, ?_, ?_⟩, hkeep1.trans (hkeep2.trans hkeep3), fun m hm => ⟨hkeep3 _ (hkeep2 _ hown), ?_⟩⟩
    · rcases hbuffer with hb | hb
      · rw [hb]
        exact hord2
      · rw [hb]
        exact hord2.resize _
    · rcases hbuffer with hb | hb
      · rw [hb, hcap2]
        rcases h.covered with ⟨h1, h2⟩ | ⟨h1, h2⟩
        · exact .inl ⟨(hcov2 h1).congr hstore hb, h2⟩
        · exact .inr ⟨(hcov2 h1).congr hstore hb, le_trans hmono h2⟩
      · -- the resize follows the triggers that are left
        right
        rw [hb, PreTriggerBuffer.resize_capacity]
        refine ⟨?_, le_rfl⟩
        have hresized : RecentCovered recent (fun i => i < (sessionTurn E domain entry x sid).sessions.maxPreWindowForDomain domain)
            (p2.resizePreBuffer ((sessionTurn E domain entry x sid).sessions.maxPreWindowForDomain domain)) := by
          rcases h.covered with ⟨h1, -⟩ | ⟨h1, h2⟩
          · exact (hcov2 h1).resize fun _ _ => trivial
          · exact (hcov2 h1).resize fun i hi => lt_of_lt_of_le hi (le_trans hmono h2)
        exact hresized.congr hstore hb
    · intro i y f hi hm' hf
      have hy : y ∈ arrived := hrecent _ (List.mem_of_getElem? hi)
      -- the trigger is one of the domain's, so the buffer is as long as it asks
      have hreach : m.preWindow ≤ x.sessions.maxPreWindowForDomain domain := by
        obtain ⟨st, hst, hd⟩ := mem_bound_fst.mp hsid
        rw [hfired, (evaluateSession_of hst).2] at hm
        obtain ⟨t, ht, rfl⟩ := TriggerManager.of_mem_evaluate hm
        have hle := maxPreWindow_le_of_bound (mem_bound.mpr ⟨st, hst, hd, rfl⟩)
        exact le_trans (TriggerManager.preWindow_le ht) (le_trans (le_of_eq (maxPreWindow_core _).symm) hle)
      have hcov : x.pipeline.Captured y ∨ x.pipeline.preBuffer.Buffered i y := by
        rcases h.covered with ⟨h1, -⟩ | ⟨h1, h2⟩
        · exact h1 i y f hi (lt_of_lt_of_le hm' hf) trivial
        · exact h1 i y f hi (lt_of_lt_of_le hm' hf) (lt_of_lt_of_le hm' (le_trans hreach h2))
      rcases hcov with hc | hb
      · exact hkeep3 y (hkeep2 y (hkeep1 y hc))
      · refine hkeep3 y (flushPreWindow_captures hsound1 hy ?_)
        rw [hbuf1]
        exact hb.mem_flush h.ordered (lt_of_lt_of_le hm' (preWindow_le_maxPre hm))

/-- **The turns of all sessions.** What fires in any of them has its context
captured at the end. -/
theorem turns_capture (hentry : entry ∈ arrived) (hrecent : ∀ q ∈ recent, q.1 ∈ arrived) :
    ∀ (sids : List SessionId) {x : Turns}, TurnInv arrived recent capacity domain x →
    (∀ sid ∈ sids, sid ∈ (x.sessions.bound domain).map Prod.fst) →
    TurnInv arrived recent capacity domain (sids.foldl (sessionTurn E domain entry) x) ∧
    x.pipeline.KeepsCaptured (sids.foldl (sessionTurn E domain entry) x).pipeline ∧
    ∀ q ∈ turnFirings E domain entry sids x,
      (sids.foldl (sessionTurn E domain entry) x).pipeline.Captured entry ∧
      ∀ i y f, recent[i]? = some (y, f) → i < q.2.preWindow → q.2.preWindow ≤ f →
        (sids.foldl (sessionTurn E domain entry) x).pipeline.Captured y
  | [], _, h, _ => ⟨h, .refl _, fun _ hq => absurd hq List.not_mem_nil⟩
  | sid :: sids, x, h, hsids => by
    obtain ⟨h1, hkeep1, hfire1⟩ := @TurnInv.turn E _ _ _ _ entry _ _ h hentry hrecent (hsids sid List.mem_cons_self)
    obtain ⟨h2, hkeep2, hfire2⟩ := turns_capture hentry hrecent sids h1 fun sid' hsid' => by
      rw [bound_fst_sessionTurn]
      exact hsids sid' (List.mem_cons_of_mem _ hsid')
    refine ⟨h2, hkeep1.trans hkeep2, fun q hq => ?_⟩
    rw [turnFirings] at hq
    rcases List.mem_append.mp hq with hq | hq
    · obtain ⟨m, hm, rfl⟩ := List.mem_map.mp hq
      obtain ⟨hown, hpre⟩ := hfire1 m hm
      exact ⟨hkeep2 _ hown, fun i y f hi hm' hf => hkeep2 _ (hpre i y f hi hm' hf)⟩
    · exact hfire2 q hq

end Turn

/-! ### Post-windows over the turns -/

section Windows

variable {E : TextEnv} {domain : DomainId} {entry : LogEntry} {x : Turns} {sid : SessionId} {c : SessionState}

theorem dropOneshots_frame : ∀ (fired : List TriggerMatch) (c : SessionState),
    (fired.foldl dropOneshot c).postWindowRemaining = c.postWindowRemaining ∧
      (fired.foldl dropOneshot c).connected = c.connected
  | [], _ => ⟨rfl, rfl⟩
  | m :: fired, c => by
    obtain ⟨h1, h2⟩ := dropOneshots_frame fired (dropOneshot c m)
    rw [List.foldl_cons, h1, h2]
    unfold dropOneshot
    split <;> exact ⟨rfl, rfl⟩

theorem turnCore_connected (E : TextEnv) (entry : LogEntry) (fired : List TriggerMatch) (c : SessionState) :
    (turnCore E entry fired c).connected = c.connected := by
  unfold turnCore
  split
  · rfl
  · exact (dropOneshots_frame fired _).2

/-- The window counts down by one, and opens for what fired. -/
theorem turnCore_window (E : TextEnv) (entry : LogEntry) (fired : List TriggerMatch) (c : SessionState) :
    c.postWindowRemaining - 1 ≤ (turnCore E entry fired c).postWindowRemaining ∧
      ∀ m ∈ fired, m.postWindow ≤ (turnCore E entry fired c).postWindowRemaining := by
  unfold turnCore
  split
  · rename_i hempty
    refine ⟨le_rfl, fun m hm => ?_⟩
    rw [List.isEmpty_iff.mp hempty] at hm
    exact absurd hm List.not_mem_nil
  · rw [(dropOneshots_frame fired _).1]
    exact ⟨le_max_left _ _, fun m hm => le_trans (postWindow_le_maxPost hm) (le_max_right _ _)⟩

/-- What fires in a bound session's turn, and whether its window was open. -/
theorem evaluateSession_bound (h : (sid, c) ∈ x.sessions.bound domain) :
    (evaluateSession E x.sessions sid entry).2.1 = decide (c.postWindowRemaining ≠ 0) ∧
    (evaluateSession E x.sessions sid entry).2.2 = (c.triggers.evaluate E entry).2 := by
  obtain ⟨st, hst, -, rfl⟩ := mem_bound.mp h
  obtain ⟨h1, h2⟩ := @evaluateSession_of E _ _ _ entry hst
  exact ⟨h1, h2.trans (st.triggers.evaluate_core E entry).1.symm⟩

/-- The place of a session in the list after a turn. -/
theorem mem_bound_sessionTurn (h : (sid, c) ∈ x.sessions.bound domain) (sid' : SessionId) :
    (sid, if sid = sid' then turnCore E entry (evaluateSession E x.sessions sid' entry).2.2 c else c) ∈
      (sessionTurn E domain entry x sid').sessions.bound domain := by
  rw [bound_sessionTurn]
  refine List.mem_map.mpr ⟨(sid, c), h, ?_⟩
  dsimp only
  split <;> rfl

theorem active_mono : ∀ (sids : List SessionId) {x : Turns}, x.anyPostWindowActive = true →
    (sids.foldl (sessionTurn E domain entry) x).anyPostWindowActive = true
  | [], _, h => h
  | sid :: sids, x, h => by
    refine active_mono sids ?_
    rw [(sessionTurn_eq domain x sid).2, h]
    split <;> rfl

/-- **Each session has one turn**, with what it had before the first: after
it stands what that turn left, and an open window makes the entry stored. -/
theorem turns_sessions : ∀ (sids : List SessionId) {x : Turns} {c : SessionState}, sids.Nodup →
    (sid, c) ∈ x.sessions.bound domain →
    (sid, if sid ∈ sids then turnCore E entry (c.triggers.evaluate E entry).2 c else c) ∈
      (sids.foldl (sessionTurn E domain entry) x).sessions.bound domain ∧
    (sid ∈ sids → c.postWindowRemaining ≠ 0 → (sids.foldl (sessionTurn E domain entry) x).anyPostWindowActive = true) ∧
    ∀ m, (sid, m) ∈ turnFirings E domain entry sids x → sid ∈ sids ∧ m ∈ (c.triggers.evaluate E entry).2
  | [], _, _, _, h =>
    ⟨by simpa using h, fun hmem => absurd hmem List.not_mem_nil, fun _ hm => absurd hm List.not_mem_nil⟩
  | sid' :: sids, x, c, hnodup, h => by
    obtain ⟨hout, hrest⟩ := List.nodup_cons.mp hnodup
    have hturn := @mem_bound_sessionTurn E domain entry x sid c h sid'
    by_cases he : sid = sid'
    · subst he
      obtain ⟨hactive, hfired⟩ := @evaluateSession_bound E domain entry x sid c h
      rw [if_pos rfl, hfired] at hturn
      obtain ⟨h1, -, h3⟩ := turns_sessions sids hrest hturn
      rw [if_neg hout] at h1
      refine ⟨?_, fun _ hopen => ?_, fun m hm => ?_⟩
      · rw [if_pos List.mem_cons_self]
        exact h1
      · refine active_mono sids ?_
        rw [(sessionTurn_eq domain x sid).2, hactive]
        split
        · simp [hopen]
        · rfl
      · refine ⟨List.mem_cons_self, ?_⟩
        rw [turnFirings] at hm
        rcases List.mem_append.mp hm with hm | hm
        · obtain ⟨m', hm', heq⟩ := List.mem_map.mp hm
          obtain ⟨-, rfl⟩ := Prod.mk.inj heq
          rw [hfired] at hm'
          exact hm'
        · exact absurd (h3 m hm).1 hout
    · rw [if_neg he] at hturn
      obtain ⟨h1, h2, h3⟩ := turns_sessions sids hrest hturn
      have hmem : sid ∈ sid' :: sids ↔ sid ∈ sids := by simp [he]
      refine ⟨?_, fun hin => h2 (hmem.mp hin), fun m hm => ?_⟩
      · simp only [hmem]
        exact h1
      · rw [turnFirings] at hm
        rcases List.mem_append.mp hm with hm | hm
        · obtain ⟨m', -, heq⟩ := List.mem_map.mp hm
          exact absurd (Prod.mk.inj heq).1.symm he
        · obtain ⟨h4, h5⟩ := h3 m hm
          exact ⟨List.mem_cons_of_mem _ h4, h5⟩

end Windows

/-! ### The end of the processing -/

section Stored

variable {E : TextEnv} {arrived : List LogEntry} {domain : DomainId} {p : LogPipeline} {entry : LogEntry}

theorem storeEntry_captures (h : Sound arrived p) (hentry : entry ∈ arrived) (s : SessionRegistry) (active : Bool) :
    Sound arrived (storeEntry E p s domain entry active) ∧
    p.KeepsCaptured (storeEntry E p s domain entry active) ∧
    (p.Captured entry ∨ active = true → (storeEntry E p s domain entry active).Captured entry) ∧
    (storeEntry E p s domain entry active).preBuffer = p.preBuffer ∧
    (storeEntry E p s domain entry active).seq = p.seq := by
  unfold storeEntry
  split
  · rename_i hc
    exact ⟨h, .refl p, fun _ => .inl (h.held_of_contains hentry hc), rfl, rfl⟩
  · split
    · have hrec := LogEntry.sameRecord_source entry .postTrigger
      exact ⟨(h.append ⟨entry, hentry, hrec⟩).sound, keepsCaptured_append h.wf _, fun _ => captured_append h hentry hrec,
        rfl, rfl⟩
    · rename_i hactive
      have hsound : Sound arrived (judgeEntry E p s domain entry).1 := ⟨h.wf, h.ring, h.buffer, h.distinct⟩
      have hkeep : p.KeepsCaptured (judgeEntry E p s domain entry).1 := keepsCaptured_of_store rfl
      have hframe : (judgeEntry E p s domain entry).1.preBuffer = p.preBuffer ∧
          (judgeEntry E p s domain entry).1.seq = p.seq := ⟨rfl, rfl⟩
      split
      · rename_i p' hj
        rw [hj] at hsound hkeep hframe
        exact ⟨hsound, hkeep, fun hc => hkeep _ (hc.resolve_right hactive), hframe⟩
      · rename_i p' e hj
        have hrec := @judgeEntry_sameRecord E domain p _ s _ (by rw [hj])
        rw [hj] at hsound hkeep hframe
        exact ⟨(hsound.append ⟨entry, hentry, hrec⟩).sound, hkeep.trans (keepsCaptured_append hsound.wf _),
          fun _ => captured_append hsound hentry hrec, hframe⟩

end Stored

end Logmon
