/-
# Runs of one cursor

A ring and one cursor over it: the writers run at any time, a read and the
commit of what it kept are two steps, and the next read waits for the commit.
What was delivered, what was stored late and what the commits reported are
recorded beside them.

Key definitions: `CursorRun`, `CursorRun.Step`.
Key theorems: `cursor_exactly_once`, `late_accounting_exact`.
-/
import Logmon.Store.Late
import Mathlib.Logic.Relation

namespace Logmon

open Lib InMemoryStore Relation

/-- A ring, a cursor, and what their run has done. -/
structure CursorRun where
  ring : InMemoryStore
  pos : CursorPos
  /-- The read in flight, and the ring it read. -/
  inFlight : Option (InMemoryStore × CursorRead)
  /-- The seqs delivered, in order. -/
  delivered : List ℕ
  /-- The seqs stored late and kept, in order. -/
  issued : List ℕ
  /-- The sum of the `late_lost` the commits reported. -/
  reported : ℕ
  /-- The late numbers the commits moved the mark past whose record the ring
  no longer held when that read ran. -/
  passedGone : List ℕ

namespace CursorRun

/-- The seqs a run of the writers stores late. -/
def issuedBy : InMemoryStore → List RingOp → List ℕ
  | _, [] => []
  | r, op :: ops => lateStored r (r.apply op) ++ issuedBy (r.apply op) ops

/-- A cursor created at seq `s` with mark `m`, over the ring that `ops` made
of an empty one. -/
def start (cap : ℕ) (hcap : cap ≤ u64Max) (ops : List RingOp) (s m : ℕ) : CursorRun where
  ring := (new cap hcap).run ops
  pos := ⟨s, m, s⟩
  inFlight := none
  delivered := []
  issued := issuedBy (new cap hcap) ops
  reported := 0
  passedGone := []

/-- One step; `allowed` says which filters a read at a position may have. -/
inductive Step (E : TextEnv) (allowed : CursorPos → Option ParsedFilter → Prop) : CursorRun → CursorRun → Prop
  | write (c : CursorRun) (op : RingOp) : Step E allowed c
      { c with ring := c.ring.apply op, issued := c.issued ++ lateStored c.ring (c.ring.apply op) }
  | read (c : CursorRun) (count : ℕ) (filter : Option ParsedFilter) : c.inFlight = none → allowed c.pos filter →
      Step E allowed c { c with inFlight := some (c.ring, cursorRead E c.ring count filter c.pos) }
  | commit (c : CursorRun) (r : InMemoryStore) (read : CursorRead) (kept : ℕ) : c.inFlight = some (r, read) →
      Step E allowed c { c with
        pos := read.posFor kept
        inFlight := none
        delivered := c.delivered ++ keptSeqs read kept
        reported := c.reported + (read.advanceFor kept).lateLost.getD 0
        passedGone := c.passedGone ++ r.numbersGone c.pos.lateMark (read.posFor kept).lateMark }

theorem issues_run : ∀ {ops : List RingOp} {r : InMemoryStore} {issued : List ℕ}, Issues r issued → r.WF →
    Issues (r.run ops) (issued ++ issuedBy r ops)
  | [], _, _, h, _ => by
    rw [issuedBy, List.append_nil]
    exact h
  | op :: ops, r, issued, h, hwf => by
    have : Issues ((r.apply op).run ops) _ := issues_run (h.apply hwf op) (hwf.apply op)
    rwa [List.append_assoc] at this

/-! ### Delivery -/

/-- What every state of a run keeps, for the records `P` selects above the
creation floor `s`. -/
structure Delivers (P : LogEntry → Prop) (s : ℕ) (c : CursorRun) : Prop where
  wf : c.ring.WF
  floor : c.pos.floor = s
  covers : Covers P c.ring c.pos c.delivered
  once : Once c.ring c.pos c.delivered
  /-- A read in flight is good for a commit of any part of it. -/
  flight : ∀ r read, c.inFlight = some (r, read) → ∀ k, (read.posFor k).floor = s ∧
    Covers P c.ring (read.posFor k) (c.delivered ++ keptSeqs read k) ∧
    Once c.ring (read.posFor k) (c.delivered ++ keptSeqs read k)

section delivery

variable {E : TextEnv} {allowed : CursorPos → Option ParsedFilter → Prop} {P : LogEntry → Prop} {s : ℕ}
  {c c' : CursorRun}

/-- One step keeps the invariant, if every allowed filter takes what `P`
selects. -/
theorem Delivers.step (h : Delivers P s c) (hstep : Step E allowed c c')
    (hsel : ∀ pos g, pos.floor = s → pos.floor ≤ pos.seq → allowed pos g → Selects E P g pos) :
    Delivers P s c' := by
  cases hstep with
  | write op =>
    have hev := h.wf.evolves op
    have hwf' := h.wf.apply op
    refine ⟨hwf', h.floor, h.covers.evolve hev, h.once.evolve h.covers hev hwf', fun r read hr k => ?_⟩
    obtain ⟨hf, hc, ho⟩ := h.flight r read hr k
    exact ⟨hf, hc.evolve hev, ho.evolve hc hev hwf'⟩
  | read count filter hnone hallowed =>
    have hsel' := hsel _ _ h.floor h.covers.floor_le hallowed
    refine ⟨h.wf, h.floor, h.covers, h.once, fun r read hr k => ?_⟩
    obtain ⟨rfl, rfl⟩ := Prod.mk.inj (Option.some.inj hr)
    exact ⟨h.floor, h.covers.advance h.wf hsel' k, h.once.advance h.covers h.wf k⟩
  | commit r read kept hflight =>
    obtain ⟨hf, hc, ho⟩ := h.flight r read hflight kept
    exact ⟨h.wf, hf, hc, ho, fun r read hr => absurd hr (by simp)⟩

theorem Delivers.run (h : Delivers P s c) (hrun : ReflTransGen (Step E allowed) c c')
    (hsel : ∀ pos g, pos.floor = s → pos.floor ≤ pos.seq → allowed pos g → Selects E P g pos) :
    Delivers P s c' := by
  induction hrun with
  | refl => exact h
  | tail _ hstep ih => exact ih.step hstep hsel

end delivery

theorem delivers_start {cap : ℕ} {hcap : cap ≤ u64Max} {ops : List RingOp} {s m : ℕ} (P : LogEntry → Prop)
    (hm : m ≤ ((new cap hcap).run ops).lateCounter) : Delivers P s (start cap hcap ops s m) where
  wf := (wf_new cap hcap).run
  floor := rfl
  covers := ⟨le_rfl, hm, Or.inl rfl, by simp [start], by simp [start], fun e _ _ h1 h2 => absurd h2 (Nat.not_le.mpr h1)⟩
  once := ⟨by simp [start], by simp [start], by simp [start], by simp [start]⟩
  flight _ _ h := absurd h (by simp [start])

/-- The records a fixed filter selects above the creation floor. -/
def SelectedBy (E : TextEnv) (f : Option ParsedFilter) (s : ℕ) (e : LogEntry) : Prop :=
  matchesOpt? E (filterAt f s) e = true

theorem selects_filterAt {E : TextEnv} {f : Option ParsedFilter} {pos : CursorPos} (h : pos.floor ≤ pos.seq) :
    Selects E (SelectedBy E f pos.floor) (filterAt f pos.seq) pos where
  normal e hP hlt := by
    rw [matchesOpt_filterAt_congr f hlt (b := pos.floor) (by omega)]
    exact hP
  late _ hP := matchesPast_of_matchesOpt _ hP

/-! ### Accounting -/

/-- What every state of a run keeps about late numbers, for a cursor created
with mark `m`. -/
structure Accounts (E : TextEnv) (m : ℕ) (c : CursorRun) : Prop where
  wf : c.ring.WF
  issues : Issues c.ring c.issued
  mark_le : m ≤ c.pos.lateMark
  reported : c.reported = c.passedGone.length
  nodup : c.passedGone.Nodup
  passed : ∀ n ∈ c.passedGone, m < n ∧ n ≤ c.pos.lateMark ∧ n ≤ c.ring.lateCounter
  flight : ∀ r read, c.inFlight = some (r, read) → r.WF ∧ r.lateCounter ≤ c.ring.lateCounter ∧
    ∃ count filter, read = cursorRead E r count filter c.pos

section accounting

variable {E : TextEnv} {allowed : CursorPos → Option ParsedFilter → Prop} {m : ℕ} {c c' : CursorRun}

theorem Accounts.step (h : Accounts E m c) (hstep : Step E allowed c c') : Accounts E m c' := by
  cases hstep with
  | write op =>
    have hmono := (h.wf.evolves op).counter_mono
    refine ⟨h.wf.apply op, h.issues.apply h.wf op, h.mark_le, h.reported, h.nodup, fun n hn => ?_,
      fun r read hr => ?_⟩
    · obtain ⟨h1, h2, h3⟩ := h.passed n hn
      exact ⟨h1, h2, h3.trans hmono⟩
    · obtain ⟨h1, h2, h3⟩ := h.flight r read hr
      exact ⟨h1, h2.trans hmono, h3⟩
  | read count filter hnone hallowed =>
    refine ⟨h.wf, h.issues, h.mark_le, h.reported, h.nodup, h.passed, fun r read hr => ?_⟩
    obtain ⟨rfl, rfl⟩ := Prod.mk.inj (Option.some.inj hr)
    exact ⟨h.wf, le_rfl, count, filter, rfl⟩
  | commit r read kept hflight =>
    obtain ⟨hwf, hcount, count, filter, rfl⟩ := h.flight r read hflight
    obtain ⟨-, hmark, hbound⟩ := hwf.posFor_bounds E count filter c.pos kept
    refine ⟨h.wf, h.issues, h.mark_le.trans hmark, ?_, ?_, fun n hn => ?_, fun r read hr => absurd hr (by simp)⟩
    · simp only
      rw [hwf.lateLost_advanceFor, List.length_append, h.reported]
      rfl
    · -- the numbers passed before are at or below the old mark
      refine List.nodup_append.mpr ⟨h.nodup, nodup_numbersGone _ _ _, fun n hn k hk => ?_⟩
      have := (h.passed n hn).2.1
      have := (mem_numbersGone.mp hk).1
      omega
    · rcases List.mem_append.mp hn with hn | hn
      · obtain ⟨h1, h2, h3⟩ := h.passed n hn
        exact ⟨h1, h2.trans hmark, h3⟩
      · obtain ⟨h1, h2, -⟩ := mem_numbersGone.mp hn
        have := h.mark_le
        refine ⟨by omega, h2, ?_⟩
        simp only
        omega

theorem Accounts.run (h : Accounts E m c) (hrun : ReflTransGen (Step E allowed) c c') : Accounts E m c' := by
  induction hrun with
  | refl => exact h
  | tail _ hstep ih => exact ih.step hstep

end accounting

theorem accounts_start (E : TextEnv) (cap : ℕ) (hcap : cap ≤ u64Max) (ops : List RingOp) (s m : ℕ) :
    Accounts E m (start cap hcap ops s m) where
  wf := (wf_new cap hcap).run
  issues := issues_run (issues_new cap hcap) (wf_new cap hcap)
  mark_le := le_rfl
  reported := rfl
  nodup := List.nodup_nil
  passed := by simp [start]
  flight _ _ h := absurd h (by simp [start])

end CursorRun

open CursorRun

/-- **Exactly once.** Over every interleaving of the writers with the reads
and commits of one cursor, under a fixed filter: nothing is delivered twice,
nothing at or below the creation floor is delivered, and when a read comes
back short of its count, every record held then that passes the filter above
the floor was delivered before or is in the read. -/
theorem cursor_exactly_once (E : TextEnv) (f : Option ParsedFilter) (cap : ℕ) (hcap : cap ≤ u64Max)
    (ops : List RingOp) (s m : ℕ) (hm : m ≤ ((new cap hcap).run ops).lateCounter) (c : CursorRun)
    (hrun : ReflTransGen (Step E fun pos g => g = filterAt f pos.seq) (start cap hcap ops s m) c) :
    c.delivered.Nodup ∧ (∀ d ∈ c.delivered, s < d) ∧
      ∀ count, let read := cursorRead E c.ring count (filterAt f c.pos.seq) c.pos
        read.entries.length < count → ∀ e ∈ c.ring.entries, s < e.seq →
          matchesOpt? E (filterAt f s) e = true →
            e.seq ∈ c.delivered ++ keptSeqs read read.entries.length := by
  have h : Delivers (SelectedBy E f s) s c := by
    refine (delivers_start _ hm).run hrun fun pos g hfloor hle hg => ?_
    subst hg hfloor
    exact selects_filterAt hle
  refine ⟨h.once.nodup, fun d hd => h.floor ▸ h.once.above d hd, fun count hshort e he hs hP => ?_⟩
  have hsel : Selects E (SelectedBy E f c.pos.floor) (filterAt f c.pos.seq) c.pos :=
    selects_filterAt h.covers.floor_le
  rw [h.floor] at hsel
  rcases h.covers.short_read h.wf hsel hshort e he hP (by rw [h.floor]; exact hs) with hD | hin
  · exact List.mem_append_left _ hD
  · refine List.mem_append_right _ ?_
    unfold keptSeqs CursorRead.keptEntries
    rw [List.take_length]
    exact List.mem_map_of_mem hin

/-- A record read on arrival, then one stored late below it: each delivered
once. -/
theorem cursor_exactly_once_late : ∃ c, ReflTransGen (Step .ascii fun pos g => g = filterAt none pos.seq)
    (start 2 (by decide) [] 0 0) c ∧ c.delivered = [5, 3] ∧ c.delivered.Nodup := by
  have h0 : ReflTransGen (Step .ascii fun pos g => g = filterAt none pos.seq)
    (start 2 (by decide) [] 0 0) (start 2 (by decide) [] 0 0) := .refl
  have h1 := h0.tail (.write _ (.append (.blank 5)))
  have h2 := h1.tail (.read _ 10 none rfl rfl)
  have h3 := h2.tail (.commit _ _ _ 1 rfl)
  have h4 := h3.tail (.write _ (.insertSorted [.blank 3]))
  have h5 := h4.tail (.read _ 10 none rfl rfl)
  have hrun := h5.tail (.commit _ _ _ 1 rfl)
  exact ⟨_, hrun, by decide, (cursor_exactly_once .ascii none 2 (by decide) [] 0 0 (by decide) _ hrun).1⟩

/-- **Late accounting is exact.** Over every interleaving of the writers with
the reads and commits of one cursor, under any filters: the late maps are
inverse and number exactly the held records that were stored below the newest
held, by their place among all those stored so, which no other record takes;
and what the commits reported lost adds up to the late numbers past the
initial mark that they passed whose record had left by the read. -/
theorem late_accounting_exact (E : TextEnv) (cap : ℕ) (hcap : cap ≤ u64Max) (ops : List RingOp) (s m : ℕ)
    (c : CursorRun) (hrun : ReflTransGen (Step E fun _ _ => True) (start cap hcap ops s m) c) :
    (∀ n q, c.ring.late.get? n = some q ↔ c.ring.lateBySeq.get? q = some n) ∧
      (∀ q, (∃ n, c.ring.lateBySeq.get? q = some n) ↔ q ∈ c.issued ∧ ∃ e ∈ c.ring.entries, e.seq = q) ∧
      (∀ n q, c.ring.lateBySeq.get? q = some n → 1 ≤ n ∧ c.issued[n - 1]? = some q) ∧
      c.ring.lateCounter = c.issued.length ∧ c.issued.Nodup ∧
      c.reported = c.passedGone.length ∧ c.passedGone.Nodup ∧
      ∀ n ∈ c.passedGone, m < n ∧ n ≤ c.pos.lateMark ∧ n ≤ c.ring.lateCounter := by
  have h := (accounts_start E cap hcap ops s m).run hrun
  refine ⟨h.wf.late.inverse, fun q => ?_, fun n q hn => ?_, h.issues.counter, h.issues.nodup, h.reported,
    h.nodup, h.passed⟩
  · constructor
    · rintro ⟨n, hn⟩
      obtain ⟨-, hidx, hheld⟩ := (h.issues.numbered n q).mp hn
      exact ⟨List.mem_of_getElem? hidx, hheld⟩
    · rintro ⟨hin, hheld⟩
      obtain ⟨i, hi⟩ := List.mem_iff_getElem?.mp hin
      exact ⟨i + 1, (h.issues.numbered (i + 1) q).mpr ⟨by omega, by simpa using hi, hheld⟩⟩
  · obtain ⟨h1, hidx, -⟩ := (h.issues.numbered n q).mp hn
    exact ⟨h1, hidx⟩

/-- A late record evicted before any read: the next commit reports it. -/
theorem late_accounting_exact_evicted : ∃ c, ReflTransGen (Step .ascii fun _ _ => True)
    (start 2 (by decide) [] 0 0) c ∧ c.reported = 1 ∧ c.reported = c.passedGone.length := by
  have h0 : ReflTransGen (Step .ascii fun _ _ => True)
    (start 2 (by decide) [] 0 0) (start 2 (by decide) [] 0 0) := .refl
  have h1 := h0.tail (.write _ (.append (.blank 5)))
  have h2 := h1.tail (.write _ (.insertSorted [.blank 3]))
  have h3 := h2.tail (.write _ (.append (.blank 7)))
  have h4 := h3.tail (.read _ 10 none rfl trivial)
  have hrun := h4.tail (.commit _ _ _ 0 rfl)
  exact ⟨_, hrun, by decide, (late_accounting_exact .ascii 2 (by decide) [] 0 0 _ hrun).2.2.2.2.2.1⟩

end Logmon
