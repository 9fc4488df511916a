/-
# Runs of a domain's log side

A domain's log pipeline and the daemon's sessions, over sequential runs:
entries arrive, sessions with their filters and triggers change in any way
between arrivals, the pre-trigger buffer is resized, the logs are cleared, and
spans take seqs from the counter they share. The run remembers every entry
that arrived, under the seq it was assigned.

In every state reached each of them is settled (`LogRun.Inv`): the ring holds
it, or lost it, or its seq is dark. So a `complete` export has every arrived
match of the window it was judged over. The seq counter is a `u64` and must
not have wrapped: after that a seq names two records.

Key definitions: `LogRun`, `LogAct`, `LogRun.step`, `LogRun.Inv`.
Key theorems: `LogRun.Inv.step`, `complete_is_sound`.
-/
import Logmon.Daemon.Export
import Logmon.Lib.Reach

namespace Logmon

open Lib LogPipeline

/-- A domain's log side, and the entries that have arrived. -/
structure LogRun where
  pipeline : LogPipeline
  sessions : SessionRegistry
  arrived : List LogEntry

inductive LogAct
  | arrive (entry : LogEntry)
  /-- Sessions, filters and triggers change. -/
  | configure (sessions : SessionRegistry)
  | resizePreBuffer (size : ℕ)
  | clear
  /-- A span takes a seq. -/
  | span

namespace LogRun

def new (capacity : ℕ) (h : capacity ≤ u64Max) (initialSeq : ℕ) : LogRun :=
  ⟨.newWithSeq capacity h initialSeq, .new, []⟩

def step (E : TextEnv) (domain : DomainId) (s : LogRun) : LogAct → Option LogRun
  | .arrive entry =>
    let (p, sessions) := processEntryForDomain E s.pipeline s.sessions domain entry
    some ⟨p, sessions, s.arrived ++ [assigned s.pipeline entry]⟩
  | .configure sessions => some { s with sessions }
  | .resizePreBuffer size => some { s with pipeline := s.pipeline.resizePreBuffer size }
  | .clear => some { s with pipeline := s.pipeline.clearLogs.1 }
  | .span => some { s with pipeline := s.pipeline.assignSeq }

/-- The action does not wrap the seq counter. -/
def counts (s : LogRun) : LogAct → Prop
  | .arrive _ => s.pipeline.seq < u64Max
  | .span => s.pipeline.seq < u64Max
  | _ => True

instance (s : LogRun) (a : LogAct) : Decidable (s.counts a) :=
  match a with
  | .arrive _ | .span => inferInstanceAs (Decidable (s.pipeline.seq < u64Max))
  | .configure _ | .resizePreBuffer _ | .clear => .isTrue trivial

/-- Every arrived entry is settled, below seqs and floors that have not passed
the next one. -/
structure Inv (s : LogRun) : Prop where
  sound : Sound s.arrived s.pipeline
  settled : ∀ y ∈ s.arrived, s.pipeline.Settled y
  assigned : ∀ y ∈ s.arrived, y.seq ≤ s.pipeline.seq
  upto : s.pipeline.epochs.Upto s.pipeline.seq
  admits : s.pipeline.store.admitFrom ≤ s.pipeline.seq + 1

theorem inv_new (capacity : ℕ) (h : capacity ≤ u64Max) (initialSeq : ℕ) : (new capacity h initialSeq).Inv where
  sound := sound_new capacity h initialSeq
  settled := by simp [new]
  assigned := by simp [new]
  upto := ⟨le_rfl, by simp [new, newWithSeq, EpochLog.new]⟩
  admits := Nat.zero_le _

variable {E : TextEnv} {domain : DomainId} {s s' : LogRun}

/-- **An arrival is settled when its processing ends.** -/
theorem Inv.arrive (h : s.Inv) (hseq : s.pipeline.seq < u64Max) (entry : LogEntry) :
    Inv ⟨(processEntryForDomain E s.pipeline s.sessions domain entry).1,
      (processEntryForDomain E s.pipeline s.sessions domain entry).2,
      s.arrived ++ [Logmon.assigned s.pipeline entry]⟩ := by
  set e := Logmon.assigned s.pipeline entry with he
  have hn : e.seq = s.pipeline.seq + 1 := nextSeq_eq hseq
  have hmem : e ∈ s.arrived ++ [e] := List.mem_append_right _ List.mem_cons_self
  have hsound : Sound (s.arrived ++ [e]) s.pipeline.assignSeq := h.sound.arrive hseq h.assigned entry
  -- the sessions' turns, then the pre-trigger buffer
  have hturns := @sessionTurns_through E domain _ _ hmem
    (s.sessions.activeSessionIdsSortedByPreWindowForDomain domain) (x := ⟨s.pipeline.assignSeq, s.sessions, false⟩) hsound
  have hthrough := hturns.trans (preBufferAppend_through hturns.sound hmem)
  have hupto : s.pipeline.epochs.Upto e.seq := h.upto.mono (by omega)
  have hstored := @storeEntry_stored E domain _ _ _ hthrough.sound hmem
    (.inl (by rw [hthrough.admitFrom, hn]; exact h.admits)) (by rw [hthrough.epochs]; exact hupto)
    ((s.sessions.activeSessionIdsSortedByPreWindowForDomain domain).foldl (sessionTurn E domain e)
      ⟨s.pipeline.assignSeq, s.sessions, false⟩).sessions
    ((s.sessions.activeSessionIdsSortedByPreWindowForDomain domain).foldl (sessionTurn E domain e)
      ⟨s.pipeline.assignSeq, s.sessions, false⟩).anyPostWindowActive
  have hseq' : (processEntryForDomain E s.pipeline s.sessions domain entry).1.seq = e.seq :=
    hstored.seq.trans hthrough.seq
  refine ⟨hstored.sound, fun y hy => ?_, fun y hy => ?_, ?_, ?_⟩
  · rcases List.mem_append.mp hy with hy | hy
    · have hlt : y.seq < e.seq := by
        have := h.assigned y hy
        omega
      exact hstored.keeps y hlt (hthrough.keeps y (h.settled y hy))
    · rw [List.mem_singleton.mp hy]
      exact hstored.settled
  · show y.seq ≤ (processEntryForDomain E s.pipeline s.sessions domain entry).1.seq
    rw [hseq']
    rcases List.mem_append.mp hy with hy | hy
    · have := h.assigned y hy
      omega
    · rw [List.mem_singleton.mp hy]
  · show (processEntryForDomain E s.pipeline s.sessions domain entry).1.epochs.Upto _
    rw [hseq']
    exact hstored.upto
  · show (processEntryForDomain E s.pipeline s.sessions domain entry).1.store.admitFrom ≤ _
    rw [hseq', hn]
    have := hstored.admitFrom.trans hthrough.admitFrom
    exact le_trans (le_of_eq this) (le_trans h.admits (Nat.le_succ _))

theorem Inv.clear (h : s.Inv) : Inv { s with pipeline := s.pipeline.clearLogs.1 } := by
  obtain ⟨hsound, hkeeps⟩ := h.sound.clearThrough s.pipeline.seq
  refine ⟨hsound, fun y hy => hkeeps y (h.settled y hy), h.assigned, h.upto, ?_⟩
  show max s.pipeline.store.clearLocked.admitFrom (satAdd s.pipeline.seq 1) ≤ s.pipeline.seq + 1
  have hsame : s.pipeline.store.clearLocked.admitFrom = s.pipeline.store.admitFrom := by
    rw [InMemoryStore.clearLocked_eq h.sound.wf.asc]
  rw [hsame]
  exact max_le h.admits (satAdd_le_add _ _)

/-- **Every action keeps it.** -/
theorem Inv.step {a : LogAct} (h : s.Inv) (hc : s.counts a) (hs : s.step E domain a = some s') : s'.Inv := by
  cases a with
  | arrive entry =>
    obtain rfl := Option.some.inj hs
    exact h.arrive hc entry
  | configure sessions =>
    obtain rfl := Option.some.inj hs
    exact ⟨h.sound, h.settled, h.assigned, h.upto, h.admits⟩
  | resizePreBuffer size =>
    obtain rfl := Option.some.inj hs
    have ht : Through s.arrived s.pipeline (s.pipeline.resizePreBuffer size) :=
      h.sound.congr rfl (fun e he => PreTriggerBuffer.mem_resize he) rfl rfl
    exact ⟨ht.sound, fun y hy => ht.keeps y (h.settled y hy), h.assigned, h.upto, h.admits⟩
  | clear =>
    obtain rfl := Option.some.inj hs
    exact h.clear
  | span =>
    obtain rfl := Option.some.inj hs
    have hn : s.pipeline.assignSeq.seq = s.pipeline.seq + 1 := nextSeq_eq hc
    have hsound : Sound s.arrived s.pipeline.assignSeq :=
      ⟨h.sound.wf, h.sound.ring, h.sound.buffer, h.sound.distinct⟩
    refine ⟨hsound, h.settled, fun y hy => ?_, ?_, ?_⟩
    · show y.seq ≤ s.pipeline.assignSeq.seq
      have := h.assigned y hy
      omega
    · show s.pipeline.epochs.Upto s.pipeline.assignSeq.seq
      exact h.upto.mono (by omega)
    · show s.pipeline.store.admitFrom ≤ s.pipeline.assignSeq.seq + 1
      have := h.admits
      omega

end LogRun

/-- **A complete export has every arrived match.** After any run whose seq
counter has not wrapped, and for any filter, range and count: if the verdict
is `complete`, every entry that arrived with a seq of the judged window and
that matches the resolved filter is in the reply. -/
theorem complete_is_sound (E : TextEnv) (domain : DomainId) (capacity : ℕ) (hcap : capacity ≤ u64Max) (initialSeq : ℕ)
    {s : LogRun} (hr : Reach (LogRun.step E domain) LogRun.counts (.new capacity hcap initialSeq) s)
    (bookmarks : BookmarkStore) (session : SessionName) (req : ExportRequest) (now : ℤ) {b : BookmarkStore}
    {reply : ExportReply} (hreply : handleLogsExport E s.pipeline bookmarks session req now = (b, .ok reply))
    (hc : reply.verdict = .complete) :
    ∃ b' resolved commit lo hi,
      parseAndResolveFilter req.filter s.pipeline bookmarks session now = (b', .ok (resolved, commit)) ∧
      reply.window = some (lo, hi) ∧ ∀ y ∈ s.arrived, lo ≤ y.seq → y.seq ≤ hi → matchesOpt? E resolved y = true →
        ∃ e ∈ reply.logs, e.SameRecord y := by
  have hinv : s.Inv := hr.invariant (LogRun.inv_new capacity hcap initialSeq) fun _ _ _ h hg hs => h.step hg hs
  exact export_vouches hinv.sound hinv.settled hreply hc

namespace LogRun

/-- An entry of a level and a message. -/
def entryAt (level : Level) (message : String) : LogEntry :=
  { LogEntry.blank 0 with level, timestamp := 1785506527000000000, message }

/-- One session of one filter. -/
def oneSession (filter : ParsedFilter) (text : String) (description : Option String) : SessionRegistry where
  sessions :=
    { entries := [(.named ⟨"a", noSlash_a⟩,
        { name := some "a", triggers := ⟨[], 1⟩, filters := [⟨1, filter, text, description⟩], notificationQueue := [],
          nextFilterId := 2, maxQueueSize := 0, postWindowRemaining := 0, connected := true, lastSeen := 0,
          clientInfo := none, domain := ⟨"default"⟩ })]
      nodup := by simp }

/-- One session, whose filter stores errors. -/
def errorsOnly : SessionRegistry := oneSession (.qualifiers [.levelFilter .gte .error]) "l>=ERROR" (some "errors")

/-- Two records around a span, then one that a session's filter refuses and
one that it stores. -/
def filteredLater : List LogAct :=
  [.arrive (entryAt .info "connected"), .span, .arrive (entryAt .error "stalled"), .configure errorsOnly,
    .arrive (entryAt .info "tick"), .arrive (entryAt .error "gave up")]

/-- An export of the errors of 1..=3. -/
def exportErrors : ExportRequest := ⟨none, some (.qualifiers [.levelFilter .gte .error]), some 1, some 3, by decide⟩

/-- What it answers: the verdict, the window, and the seqs. -/
def errorsAnswered (s : LogRun) : Option (EvidenceVerdict × Option (ℕ × ℕ) × List ℕ) :=
  (handleLogsExport .ascii s.pipeline .new ⟨"a", by decide⟩ exportErrors 0).2.toOption.map fun reply =>
    (reply.verdict, reply.window, reply.logs.map LogEntry.seq)

theorem reach_filteredLater :
    ∃ s, Reach (LogRun.step .ascii ⟨"default"⟩) LogRun.counts (.new 4 (by decide) 0) s ∧
      s.arrived.map LogEntry.message = ["connected", "stalled", "tick", "gave up"] ∧
      (entryAt .error "stalled").withSeq 3 (by decide) ∈ s.arrived ∧
      errorsAnswered s = some (.complete, some (1, 3), [3]) :=
  reach_decided filteredLater (by decide +kernel)

/-- The state after one entry arrived on a fresh domain. -/
def afterOne : LogRun :=
  ⟨(processEntryForDomain .ascii (LogPipeline.newWithSeq 4 four_le_u64Max 0) .new ⟨"default"⟩ (.blank 0)).1, .new,
    [LogEntry.blank 1]⟩

end LogRun

/-- The errors of a window with another record, before a filter narrowed what
is stored. -/
theorem complete_is_sound_errors :
    ∃ s b reply, Reach (LogRun.step .ascii ⟨"default"⟩) LogRun.counts (.new 4 (by decide) 0) s ∧
      s.arrived.map LogEntry.message = ["connected", "stalled", "tick", "gave up"] ∧
      handleLogsExport .ascii s.pipeline .new ⟨"a", by decide⟩ LogRun.exportErrors 0 = (b, .ok reply) ∧
      reply.verdict = .complete ∧
      ∃ e ∈ reply.logs, e.SameRecord ((LogRun.entryAt .error "stalled").withSeq 3 (by decide)) := by
  obtain ⟨s, hr, harrived, hmem, hanswer⟩ := LogRun.reach_filteredLater
  obtain ⟨reply, hreply, hparts⟩ := Option.map_eq_some_iff.mp hanswer
  obtain ⟨hverdict, hwindow, -⟩ : reply.verdict = .complete ∧ reply.window = some (1, 3) ∧
      reply.logs.map LogEntry.seq = [3] := by simpa using hparts
  obtain ⟨b, hhandled⟩ :
      ∃ b, handleLogsExport .ascii s.pipeline .new ⟨"a", by decide⟩ LogRun.exportErrors 0 = (b, .ok reply) := by
    cases hout : handleLogsExport .ascii s.pipeline .new ⟨"a", by decide⟩ LogRun.exportErrors 0 with
    | mk b r =>
      rw [hout] at hreply
      cases r with
      | error e => cases hreply
      | ok r => exact ⟨b, by rw [Option.some.inj hreply]⟩
  refine ⟨s, b, reply, hr, harrived, hhandled, hverdict, ?_⟩
  obtain ⟨b', resolved, commit, lo, hi, hres, hw, hall⟩ :=
    complete_is_sound .ascii ⟨"default"⟩ 4 (by decide) 0 hr .new ⟨"a", by decide⟩ LogRun.exportErrors 0 hhandled
      hverdict
  obtain ⟨rfl, rfl⟩ : LogRun.exportErrors.filter = resolved ∧ none = commit :=
    Prod.mk.inj (Except.ok.inj (congrArg Prod.snd hres))
  obtain ⟨rfl, rfl⟩ := Prod.mk.inj (Option.some.inj (hwindow.symm.trans hw))
  exact hall _ hmem (by decide) (by decide) rfl

/-! ### A counter that has wrapped -/

namespace LogRun

/-- An entry with a message of its own. -/
def said (message : String) : LogEntry := { LogEntry.blank 0 with message }

/-- One session, whose filter matches nothing. -/
def refusing : SessionRegistry := oneSession .none "NONE" none

/-- Two entries are stored, then a third refused. -/
def narrowedAt3 : LogPipeline :=
  let p := (processEntryForDomain .ascii (.newWithSeq 4 four_le_u64Max 0) .new ⟨"default"⟩ (said "first")).1
  let p := (processEntryForDomain .ascii p .new ⟨"default"⟩ (said "")).1
  (processEntryForDomain .ascii p refusing ⟨"default"⟩ (said "")).1

/-- Under the refusing session an arrival only takes its seq, and is dropped
or finds its seq held. -/
theorem arrive_refused (n : ℕ) (entry : LogEntry) :
    processEntryForDomain .ascii { narrowedAt3 with seq := n } refusing ⟨"default"⟩ entry =
      ({ narrowedAt3 with seq := (n + 1) % 2 ^ 64 }, refusing) := by
  set p : LogPipeline := { narrowedAt3 with seq := n } with hp
  have hturn : (refusing.activeSessionIdsSortedByPreWindowForDomain ⟨"default"⟩).foldl
      (sessionTurn .ascii ⟨"default"⟩ (Logmon.assigned p entry)) ⟨p.assignSeq, refusing, false⟩ =
      ⟨p.assignSeq, refusing, false⟩ := rfl
  have hjudge : judgeEntry .ascii p.assignSeq refusing ⟨"default"⟩ (Logmon.assigned p entry) = (p.assignSeq, none) := rfl
  unfold processEntryForDomain
  dsimp only
  rw [hturn]
  show (storeEntry .ascii p.assignSeq refusing ⟨"default"⟩ (Logmon.assigned p entry) false, refusing) = _
  unfold storeEntry
  split
  · rfl
  · rw [if_neg (by decide), hjudge]
    rfl

/-- Any number of refused arrivals. -/
theorem reach_refused {init : LogRun} {arrived : List LogEntry} (entry : LogEntry)
    (h : Reach (LogRun.step .ascii ⟨"default"⟩) (fun _ _ => True) init ⟨{ narrowedAt3 with seq := 3 }, refusing, arrived⟩) :
    ∀ k, ∃ more, Reach (LogRun.step .ascii ⟨"default"⟩) (fun _ _ => True) init
      ⟨{ narrowedAt3 with seq := (3 + k) % 2 ^ 64 }, refusing, arrived ++ more⟩
  | 0 => ⟨[], by simpa using h⟩
  | k + 1 => by
    obtain ⟨more, hk⟩ := reach_refused entry h k
    have hmod : (3 + (k + 1)) % 2 ^ 64 = ((3 + k) % 2 ^ 64 + 1) % 2 ^ 64 := by omega
    have hstep : LogRun.step .ascii ⟨"default"⟩ ⟨{ narrowedAt3 with seq := (3 + k) % 2 ^ 64 }, refusing, arrived ++ more⟩
        (.arrive entry) = some ⟨{ narrowedAt3 with seq := ((3 + k) % 2 ^ 64 + 1) % 2 ^ 64 }, refusing,
          (arrived ++ more) ++ [Logmon.assigned { narrowedAt3 with seq := (3 + k) % 2 ^ 64 } entry]⟩ := by
      simp only [LogRun.step, arrive_refused]
    rw [hmod, List.append_assoc] at *
    exact ⟨_, .next hk trivial hstep⟩

/-- Two entries are stored as 1 and 2, the next 2^64 - 2 are refused by a
filter, and the one after them is assigned 1 again and not stored. -/
theorem reach_wrapped : ∃ s : LogRun, Reach (LogRun.step .ascii ⟨"default"⟩) (fun _ _ => True) (.new 4 (by decide) 0) s ∧
    s.pipeline = { narrowedAt3 with seq := 1 } ∧ ∃ y ∈ s.arrived, y.seq = 1 ∧ y.message = "second" := by
  have h1 : Reach (LogRun.step .ascii ⟨"default"⟩) (fun _ _ => True) (.new 4 (by decide) 0) _ :=
    .next (a := .arrive (said "first")) .start trivial rfl
  have h2 := Reach.next (a := .arrive (said "")) h1 trivial rfl
  have h3 := Reach.next (a := .configure refusing) h2 trivial rfl
  have h4 := Reach.next (a := .arrive (said "")) h3 trivial rfl
  obtain ⟨more, h5⟩ := reach_refused (said "") h4 (2 ^ 64 - 3)
  have h6 := Reach.next (a := .arrive (said "second")) h5 trivial
    (by simp only [LogRun.step, arrive_refused]; rfl)
  exact ⟨_, h6, rfl, _, List.mem_append_right _ List.mem_cons_self, rfl, rfl⟩

/-- The ring of that state holds the first record 1. -/
theorem not_held_wrapped {y : LogEntry} (hy : y.message = "second") :
    ∀ e ∈ between LogEntry.seq 1 1 narrowedAt3.store.entries, ¬ e.SameRecord y := by
  intro e he hrec
  have hmsg : e.message = "second" := (congrArg LogEntry.message (show e.core = _ from hrec)).trans hy
  have hlogs : e.message ∈ ["first"] := List.mem_map_of_mem (f := LogEntry.message) he
  rw [hmsg] at hlogs
  exact absurd hlogs (by decide)

end LogRun

/-- **After the counter wrapped, `complete` can be wrong.** A record is
assigned the seq of one that is held, so it is not stored, and the export of
1..=1 is `complete` without it. -/
theorem complete_after_wrap : ∃ s : LogRun,
    Reach (LogRun.step .ascii ⟨"default"⟩) (fun _ _ => True) (.new 4 (by decide) 0) s ∧
    ∃ b reply, handleLogsExport .ascii s.pipeline .new ⟨"a", by decide⟩ ⟨none, none, some 1, some 1, by simp; decide⟩ 0 =
        (b, .ok reply) ∧ reply.verdict = .complete ∧ reply.window = some (1, 1) ∧
      ∃ y ∈ s.arrived, y.seq = 1 ∧ ∀ e ∈ reply.logs, ¬ e.SameRecord y := by
  obtain ⟨s, hs, hp, y, hy, hseq, hmsg⟩ := LogRun.reach_wrapped
  refine ⟨s, hs, ?_⟩
  rw [hp]
  exact ⟨_, _, rfl, rfl, rfl, y, hy, hseq, LogRun.not_held_wrapped hmsg⟩

end Logmon
