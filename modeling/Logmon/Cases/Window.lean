/-
# The window of a case

`handle_cases_create` of `daemon/rpc_handler.rs`, to the verdict: the anchor
is resolved to a stored entry, and the window is cut so that it reaches the
nearest records of both stores on either side of it, then read back from each
store with its loss floor, and graded.

The cut takes the log side's neighbours from a window of the ring and the
span side's from a walk of all spans; the nearest of both is what the two
stores together would give (`Closest.within_edge`). So the window holds
exactly what was asked for or all there is (`ExactWindow`), its files what
the stores hold of it, and `complete` vouches for every settled record of it.

Key definitions: `resolveCaseAnchor`, `Cut`, `cutWindow`, `ExactWindow`,
`Cut.Exact`.
Key theorems: `resolveCaseAnchor_held`, `cutWindow_exact`,
`cutWindow_vouches`.
-/
import Logmon.Cases.Document
import Logmon.Daemon.Export
import Logmon.Daemon.Params
import Logmon.Daemon.StoresRun
import Logmon.Lib.Nearest
import Logmon.Lib.Search
import Logmon.Store.Readers
import Mathlib.Data.List.MinMax

namespace Logmon
namespace Cases

open Lib

/-! ### The anchor -/

/-- A live domain, as a capture reads it. -/
structure LiveDomain where
  name : String
  pipeline : LogPipeline
  spanStore : SpanRing
  bookmarks : BookmarkStore

/-- `u128::from_str_radix` in base 16; a leading `+` is a sign. -/
def parseHex128 (s : String) : Option ℕ :=
  let digits := match s.toList with
    | '+' :: rest => rest
    | cs => cs
  if digits.isEmpty then none
  else (digits.foldlM (fun n c => (hexDigit? c).map fun d => 16 * n + d) 0).filter (· < 2 ^ 128)

/-- `store::bookmarks::qualify`: a name that carries a session stands. -/
def qualifyIn (session : SessionName) (name : String) : String :=
  if '/' ∈ name.toList then name else Logmon.qualify session name

variable (E : TextEnv)

/-- The anchor an entry makes. -/
def anchorOf (kind : AnchorKind) (label : String) (e : LogEntry) : Anchor := ⟨kind, label, e.seq, e.timestamp, e.message⟩

/-- Resolve the tagged anchor to a stored entry; a trace's anchor says how many
entries the trace has, when it has more than one. -/
def resolveCaseAnchor (d : LiveDomain) (session : SessionName) (raw : Option Rpc.Value) :
    Except String (Anchor × Option ℕ) := do
  let raw ← raw.elim
    (.error "\x60anchor\x60 is required: it is \x60\x7bseq\x7d\x60, \x60\x7bbookmark\x7d\x60 or \x60\x7btrace_id\x7d\x60, tagged rather than one string the daemon guesses at")
    .ok
  let seq ← Rpc.optU64 raw "seq"
  let bookmark ← Rpc.optStr raw "bookmark"
  let traceId ← Rpc.optStr raw "trace_id"
  match seq, bookmark, traceId with
  | some s, none, none =>
    match (d.pipeline.store.contextBySeq s 0 0).head? with
    | none => .error s!"no stored log entry has seq {s}, so there is nothing to anchor on"
    | some e => .ok (anchorOf .seq (toString s) e, none)
  | none, some name, none =>
    let qualified := qualifyIn session name
    match d.bookmarks.get? qualified with
    | none => .error s!"no bookmark \x60{qualified}\x60 on this domain. Bookmarks are session-scoped: use \x60<session>/{name}\x60 to anchor on another session's mark."
    | some b =>
      -- a bookmark marks a boundary: the entry is the first after it
      match (d.pipeline.store.recent E 1 (some (.qualifiers [.seqFilter .gt b.seq])) true).head? with
      | none => .error s!"bookmark \x60{name}\x60 is at seq {b.seq}, and no stored entry follows it"
      | some e => .ok (anchorOf .bookmark name e, none)
  | none, none, some hex =>
    match parseHex128 hex with
    | none => .error s!"\x60{hex}\x60 is not a hexadecimal trace id"
    | some tid =>
      let entries := d.pipeline.store.logsByTraceId tid
      match entries.argmin LogEntry.seq with
      | none => .error s!"no stored log entry carries trace id \x60{hex}\x60"
      | some e => .ok (anchorOf .traceId hex e, if 1 < entries.length then some entries.length else none)
  | _, _, _ =>
    let given := ([seq.isSome, bookmark.isSome, traceId.isSome].filter id).length
    .error s!"\x60anchor\x60 takes exactly one of \x60seq\x60, \x60bookmark\x60 or \x60trace_id\x60, and {given} were given. It is tagged rather than sniffed because a bookmark named \x6012345\x60 and a seq are indistinguishable as strings, and the failure would be a document anchored somewhere else."

/-! ### The cut -/

/-- What is captured around an anchor. -/
structure Cut where
  fromSeq : ℕ
  toSeq : ℕ
  logs : List LogEntry
  logLostBelow : ℕ
  spans : List SpanEntry
  spanLostBelow : ℕ
  spanEvicted : Option ℕ
  shortBefore : ℕ
  shortAfter : ℕ
  logsEvictedBeforeWindow : Option ℕ
  coverage : EpochCoverage
  verdict : EvidenceVerdict

/-- The seqs on one side of the anchor, from the log window and from every
span: nearest first, `count` of them. -/
def sideSeqs (le : ℕ → ℕ → Bool) (count : ℕ) (side : ℕ → Bool) (logCtx : List LogEntry) (spans : List SpanEntry) :
    List ℕ :=
  nearest le count ((logCtx.map LogEntry.seq).filter side ++ (spans.map SpanEntry.seq).filter side)

def evictedDuringCapture (anchorSeq : ℕ) : String :=
  s!"the anchor entry at seq {anchorSeq} was evicted while the capture was being taken"

/-- What the stores hold between the ends of the sides, and how much of what was
asked for that is. -/
def cutAt (p : LogPipeline) (ring : SpanRing) (anchorSeq before after : ℕ) (below above : List ℕ) : Cut :=
  let fromSeq := edge anchorSeq below
  let toSeq := edge anchorSeq above
  let (logs, logLostBelow) := p.store.rangeWithFloor fromSeq toSeq
  let spanGapEnd := min ring.lostBelow (satAdd toSeq 1)
  let logsInGap := (logs.filter fun e => e.seq < spanGapEnd).length
  let shortBefore := before - below.length
  let shortAfter := after - above.length
  let logsEvicted := evictedBelow fromSeq logLostBelow
  -- cut short at the bottom where records have left, or below the floor
  let logEvicted := (decide (0 < shortBefore) && decide (0 < logLostBelow)) || logsEvicted.isSome
  let coverage := p.epochs.coverage fromSeq toSeq
  { fromSeq, toSeq, logs, logLostBelow
    spans := between SpanEntry.seq fromSeq toSeq ring.buffer
    spanLostBelow := ring.lostBelow
    spanEvicted := ((evictedBelow fromSeq spanGapEnd).map fun gap => gap - logsInGap).filter fun gap => 0 < gap
    shortBefore, shortAfter
    logsEvictedBeforeWindow := logsEvicted
    coverage
    verdict := evidenceVerdict (some coverage) logEvicted false }

/-- The window around the anchor, cut from both stores and read back. -/
def cutWindow (p : LogPipeline) (ring : SpanRing) (anchorSeq before after : ℕ) : Except String Cut :=
  let logCtx := p.store.contextBySeq anchorSeq before after
  if logCtx.isEmpty then .error (evictedDuringCapture anchorSeq)
  else
    let below := sideSeqs (fun a b => decide (b ≤ a)) before (fun s => decide (s < anchorSeq)) logCtx ring.buffer
    let above := sideSeqs (fun a b => decide (a ≤ b)) after (fun s => decide (anchorSeq < s)) logCtx ring.buffer
    let cut := cutAt p ring anchorSeq before after below above
    if (binarySearch LogEntry.seq cut.logs anchorSeq).isNone then .error (evictedDuringCapture anchorSeq)
    else .ok cut

/-! ### What a cut is -/

/-- The window holds the anchor, and of the held seqs on either side the
nearest that were asked for, or all there are. -/
structure ExactWindow (held : List ℕ) (anchor before after lo hi : ℕ) : Prop where
  once : (held.filter fun s => s = anchor).length = 1
  within : lo ≤ anchor ∧ anchor ≤ hi
  below : (held.filter fun s => lo ≤ s ∧ s < anchor).length = min before (held.filter fun s => s < anchor).length
  above : (held.filter fun s => anchor < s ∧ s ≤ hi).length = min after (held.filter fun s => anchor < s).length

/-- Where as much was asked for as is held on either side, the window is all
that is held. -/
theorem ExactWindow.whole {held : List ℕ} {anchor before after lo hi : ℕ} (h : ExactWindow held anchor before after lo hi)
    (hbefore : (held.filter fun s => s < anchor).length ≤ before)
    (hafter : (held.filter fun s => anchor < s).length ≤ after) : ∀ s ∈ held, lo ≤ s ∧ s ≤ hi := by
  have hbelow := h.below
  have habove := h.above
  have hwithin := h.within
  have hlow : ∀ s ∈ held.filter fun s => s < anchor, decide (lo ≤ s) = true := by
    rw [← List.length_filter_eq_length_iff, List.filter_filter, ← min_eq_right hbefore, ← hbelow]
    simp only [Bool.decide_and]
  have hhigh : ∀ s ∈ held.filter fun s => anchor < s, decide (s ≤ hi) = true := by
    rw [← List.length_filter_eq_length_iff, List.filter_filter, ← min_eq_right hafter, ← habove]
    simp only [Bool.decide_and, Bool.and_comm]
  intro s hs
  have h1 : s < anchor → lo ≤ s := fun hlt => by
    simpa using hlow s (List.mem_filter.mpr ⟨hs, decide_eq_true hlt⟩)
  have h2 : anchor < s → s ≤ hi := fun hlt => by
    simpa using hhigh s (List.mem_filter.mpr ⟨hs, decide_eq_true hlt⟩)
  omega

/-- The seqs both stores hold. -/
def heldSeqs (p : LogPipeline) (ring : SpanRing) : List ℕ :=
  p.store.entries.map LogEntry.seq ++ ring.buffer.map SpanEntry.seq

/-- The window is exact, and the files hold what the stores hold of it. -/
structure Cut.Exact (p : LogPipeline) (ring : SpanRing) (anchor before after : ℕ) (cut : Cut) : Prop where
  window : ExactWindow (heldSeqs p ring) anchor before after cut.fromSeq cut.toSeq
  logs : cut.logs = p.store.entries.filter fun e => cut.fromSeq ≤ e.seq ∧ e.seq ≤ cut.toSeq
  spans : cut.spans = ring.buffer.filter fun x => cut.fromSeq ≤ x.seq ∧ x.seq ≤ cut.toSeq

variable {E} {p : LogPipeline} {ring : SpanRing}

theorem filter_all {l : List ℕ} {q : ℕ → Bool} (h : ∀ s ∈ l, q s = true) : l.filter q = l := List.filter_eq_self.mpr h

theorem filter_none {l : List ℕ} {q : ℕ → Bool} (h : ∀ s ∈ l, q s = false) : l.filter q = [] :=
  List.filter_eq_nil_iff.mpr fun s hs => by simp [h s hs]

/-- The log window around a held record keeps the nearest on either side. -/
theorem closest_sides (h : p.store.WF) {e : LogEntry} (he : e ∈ p.store.entries) (before after : ℕ) :
    Closest (fun a b => decide (b ≤ a)) before ((p.store.entries.map LogEntry.seq).filter fun s => s < e.seq)
        (((p.store.contextBySeq e.seq before after).map LogEntry.seq).filter fun s => s < e.seq) ∧
      Closest (fun a b => decide (a ≤ b)) after ((p.store.entries.map LogEntry.seq).filter fun s => e.seq < s)
        (((p.store.contextBySeq e.seq before after).map LogEntry.seq).filter fun s => e.seq < s) := by
  obtain ⟨pre, post, hsplit⟩ := List.append_of_mem he
  have hasc := h.asc
  rw [hsplit] at hasc
  obtain ⟨hpre, hrest, hcross⟩ := asc_append.mp hasc
  obtain ⟨hpost, hascPost⟩ := asc_cons.mp hrest
  have hbelow : ∀ x ∈ pre, x.seq < e.seq := fun x hx => hcross x hx e List.mem_cons_self
  -- what a side keeps of a list around the record
  have hleft : ∀ (l r : List LogEntry), l ⊆ pre → r ⊆ post →
      (((l ++ e :: r).map LogEntry.seq).filter fun s => s < e.seq) = l.map LogEntry.seq := by
    intro l r hl hr
    rw [List.map_append, List.filter_append, filter_all, filter_none, List.append_nil]
    · intro s hs
      obtain ⟨x, hx, rfl⟩ := List.mem_map.mp hs
      rcases List.mem_cons.mp hx with rfl | hx
      · simp
      · simpa using (hpost x (hr hx)).le
    · intro s hs
      obtain ⟨x, hx, rfl⟩ := List.mem_map.mp hs
      exact decide_eq_true (hbelow x (hl hx))
  have hright : ∀ (l r : List LogEntry), l ⊆ pre → r ⊆ post →
      (((l ++ e :: r).map LogEntry.seq).filter fun s => e.seq < s) = r.map LogEntry.seq := by
    intro l r hl hr
    rw [List.map_append, List.map_cons, List.filter_append, filter_none, List.nil_append, List.filter_cons_of_neg (by simp),
      filter_all]
    · intro s hs
      obtain ⟨x, hx, rfl⟩ := List.mem_map.mp hs
      exact decide_eq_true (hpost x (hr hx))
    · intro s hs
      obtain ⟨x, hx, rfl⟩ := List.mem_map.mp hs
      simpa using (hbelow x (hl hx)).le
  rw [h.contextBySeq_eq hsplit, hsplit, hleft _ _ (List.Subset.refl _) (List.Subset.refl _),
    hright _ _ (List.Subset.refl _) (List.Subset.refl _), hleft _ _ (List.drop_subset _ _) (List.take_subset _ _),
    hright _ _ (List.drop_subset _ _) (List.take_subset _ _)]
  exact ⟨hpre.closest_drop before, hascPost.closest_take after⟩

/-- A cut side by side: what a side's edge encloses. -/
theorem side_enclosed {le : ℕ → ℕ → Bool} (ho : TotalOrder le) {count a : ℕ} {side : ℕ → Bool} {logs spans kept : List ℕ}
    (hkept : Closest le count (logs.filter side) kept) (hnodup : (logs ++ spans).Nodup)
    (ha : ∀ s, side s = true → le s a = false) :
    ((logs ++ spans).filter fun s => side s && le s (edge a (nearest le count (kept ++ spans.filter side)))).length =
      min count ((logs ++ spans).filter side).length := by
  have hall : (logs ++ spans).filter side = logs.filter side ++ spans.filter side := List.filter_append ..
  rw [hall, ← hkept.within_edge ho (hall ▸ hnodup.filter side) fun s hs => ha s (List.mem_filter.mp (hall ▸ hs)).2,
    ← hall, List.filter_filter]
  simp only [Bool.and_comm]

/-- **The cut of a held anchor is exact**, whatever was asked for on either
side. -/
theorem cutWindow_exact (h : p.store.WF) (hspans : Asc SpanEntry.seq ring.buffer) (hnodup : (heldSeqs p ring).Nodup)
    {e : LogEntry} (he : e ∈ p.store.entries) (before after : ℕ) :
    ∃ cut, cutWindow p ring e.seq before after = .ok cut ∧ cut.Exact p ring e.seq before after := by
  obtain ⟨hbelow, habove⟩ := closest_sides h he before after
  have hheld : e.seq ∈ heldSeqs p ring := List.mem_append_left _ (List.mem_map_of_mem he)
  have hctx : ¬ (p.store.contextBySeq e.seq before after).isEmpty = true := by
    rw [List.isEmpty_iff, h.contextBySeq_eq_nil]
    exact fun hnone => hnone e he rfl
  set below := sideSeqs (fun a b => decide (b ≤ a)) before (fun s => decide (s < e.seq))
    (p.store.contextBySeq e.seq before after) ring.buffer with hb
  set above := sideSeqs (fun a b => decide (a ≤ b)) after (fun s => decide (e.seq < s))
    (p.store.contextBySeq e.seq before after) ring.buffer with ha
  have hlo : edge e.seq below ≤ e.seq := by
    rcases edge_cases e.seq below with heq | hmem
    · exact heq.le
    · rcases List.mem_append.mp (mem_nearest hmem) with hm | hm <;> exact (of_decide_eq_true (List.mem_filter.mp hm).2).le
  have hhi : e.seq ≤ edge e.seq above := by
    rcases edge_cases e.seq above with heq | hmem
    · exact heq.ge
    · rcases List.mem_append.mp (mem_nearest hmem) with hm | hm <;> exact (of_decide_eq_true (List.mem_filter.mp hm).2).le
  have hin : e ∈ between LogEntry.seq (edge e.seq below) (edge e.seq above) p.store.entries :=
    h.asc.mem_between.mpr ⟨he, hlo, hhi⟩
  have hfound : ¬ (binarySearch LogEntry.seq (cutAt p ring e.seq before after below above).logs e.seq).isNone = true := by
    obtain ⟨i, hi⟩ := List.mem_iff_getElem?.mp hin
    have hsome : binarySearch LogEntry.seq (between LogEntry.seq (edge e.seq below) (edge e.seq above) p.store.entries)
        e.seq = some i := ((h.asc.sublist (between_sublist _ _ _)).binarySearch_eq_some_iff).mpr ⟨e, hi, rfl⟩
    show ¬ (binarySearch LogEntry.seq (between LogEntry.seq _ _ _) e.seq).isNone = true
    rw [hsome]
    simp
  refine ⟨cutAt p ring e.seq before after below above, ?_, ⟨?_, ⟨hlo, hhi⟩, ?_, ?_⟩, h.rangeWithFloor_eq _ _, ?_⟩
  · unfold cutWindow
    rw [if_neg hctx]
    exact if_neg hfound
  · have hcount := List.count_eq_one_of_mem hnodup hheld
    rw [List.count_eq_countP, List.countP_eq_length_filter] at hcount
    exact hcount
  · refine Eq.trans ?_ (side_enclosed totalOrder_ge hbelow hnodup (a := e.seq) fun s hs => by simpa using hs)
    simp only [Bool.decide_and, Bool.and_comm]
    rfl
  · refine Eq.trans ?_ (side_enclosed totalOrder_le habove hnodup (a := e.seq) fun s hs => by simpa using hs)
    simp only [Bool.decide_and]
    rfl
  · refine Asc.ext SpanEntry.seq (hspans.sublist (between_sublist _ _ _)) (hspans.filter _) fun x => ?_
    rw [List.mem_filter, decide_eq_true_eq]
    exact hspans.mem_between

/-- What a cut that succeeded is. -/
theorem cutWindow_eq_ok {anchorSeq before after : ℕ} {cut : Cut} (hcut : cutWindow p ring anchorSeq before after = .ok cut) :
    cut.logs ≠ [] ∧ ∃ below above, cut = cutAt p ring anchorSeq before after below above := by
  unfold cutWindow at hcut
  dsimp only at hcut
  split at hcut
  · simp at hcut
  split at hcut
  · simp at hcut
  · rename_i hfound
    obtain rfl := Except.ok.inj hcut
    refine ⟨fun hnil => hfound ?_, _, _, rfl⟩
    rw [hnil]
    rfl

theorem cutAt_verdict (anchorSeq before after : ℕ) (below above : List ℕ) :
    (cutAt p ring anchorSeq before after below above).verdict =
      evidenceVerdict (some (p.epochs.coverage (edge anchorSeq below) (edge anchorSeq above)))
        ((decide (0 < before - below.length) && decide (0 < p.store.lostBelow)) ||
          (evictedBelow (edge anchorSeq below) p.store.lostBelow).isSome) false := rfl

/-- **What a complete case vouches for.** Where every arrived record is
settled, the log file has every one of the window. -/
theorem cutWindow_vouches {arrived : List LogEntry} (h : LogPipeline.Sound arrived p)
    (hsettled : ∀ y ∈ arrived, p.Settled y) {anchorSeq before after : ℕ} {cut : Cut}
    (hcut : cutWindow p ring anchorSeq before after = .ok cut) (hc : cut.verdict = .complete) :
    ∀ y ∈ arrived, cut.fromSeq ≤ y.seq → y.seq ≤ cut.toSeq → ∃ e ∈ cut.logs, e.SameRecord y := by
  obtain ⟨hlogs, below, above, rfl⟩ := cutWindow_eq_ok hcut
  rw [cutAt_verdict] at hc
  obtain ⟨_, hcov, hcovered, hnarrowed, hevicted, -⟩ := evidenceVerdict_complete hc
  obtain rfl := Option.some.inj hcov
  intro y hy hlo hhi
  have hfloor : p.store.lostBelow ≤ edge anchorSeq below := by
    have hnone := (Bool.or_eq_false_iff.mp hevicted).2
    by_contra hlt
    unfold evictedBelow at hnone
    rw [if_pos (show edge anchorSeq below < p.store.lostBelow from Nat.not_le.mp hlt)] at hnone
    simp at hnone
  have hne : p.store.entries ≠ [] := by
    intro hnil
    refine hlogs ?_
    show between LogEntry.seq _ _ p.store.entries = []
    rw [hnil]
    simp [between]
  have hheld : p.Held y := by
    rcases hsettled y hy with hheld | hlost | hdark
    · exact hheld
    · exact h.held_of_top hy hlost (hfloor.trans hlo) hne
    · exact absurd hdark (EpochLog.not_dark_of_coverage hcovered hnarrowed hlo hhi y.seq_le)
  obtain ⟨e, he, hrec⟩ := hheld
  refine ⟨e, h.wf.asc.mem_between.mpr ⟨he, ?_, ?_⟩, hrec⟩
  · rw [hrec.seq]
    exact hlo
  · rw [hrec.seq]
    exact hhi

/-! ### What an anchor resolves to -/

theorem contextBySeq_subset {r : InMemoryStore} (s before after : ℕ) : r.contextBySeq s before after ⊆ r.entries := by
  unfold InMemoryStore.contextBySeq
  split
  · exact List.nil_subset _
  · exact fun e he => List.mem_of_mem_take (List.mem_of_mem_drop he)

/-- **An anchor resolves to a held entry.** -/
theorem resolveCaseAnchor_held {d : LiveDomain} (h : d.pipeline.store.WF) {session : SessionName}
    {raw : Option Rpc.Value} {anchor : Anchor} {many : Option ℕ}
    (hok : resolveCaseAnchor E d session raw = .ok (anchor, many)) :
    ∃ e ∈ d.pipeline.store.entries, anchor = anchorOf anchor.kind anchor.label e := by
  unfold resolveCaseAnchor at hok
  obtain ⟨raw, -, hok⟩ := Rpc.bind_eq_ok.mp hok
  obtain ⟨seq, -, hok⟩ := Rpc.bind_eq_ok.mp hok
  obtain ⟨bookmark, -, hok⟩ := Rpc.bind_eq_ok.mp hok
  obtain ⟨traceId, -, hok⟩ := Rpc.bind_eq_ok.mp hok
  split at hok
  · split at hok
    · simp at hok
    · rename_i e he
      obtain ⟨rfl, -⟩ := Prod.mk.inj (Except.ok.inj hok)
      exact ⟨e, contextBySeq_subset _ _ _ (List.mem_of_mem_head? he), rfl⟩
  · dsimp only at hok
    split at hok
    · simp at hok
    split at hok
    · simp at hok
    · rename_i e he
      obtain ⟨rfl, -⟩ := Prod.mk.inj (Except.ok.inj hok)
      have hmem := List.mem_of_mem_head? he
      rw [InMemoryStore.recent_eq] at hmem
      exact ⟨e, (List.mem_filter.mp (List.mem_of_mem_take hmem)).1, rfl⟩
  · split at hok
    · simp at hok
    dsimp only at hok
    split at hok
    · simp at hok
    · rename_i e he
      obtain ⟨rfl, -⟩ := Prod.mk.inj (Except.ok.inj hok)
      have hmem := List.argmin_mem he
      rw [h.logsByTraceId_eq] at hmem
      exact ⟨e, (List.mem_filter.mp hmem).1, rfl⟩
  · simp at hok

end Cases
end Logmon
