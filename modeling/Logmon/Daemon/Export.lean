/-
# Exporting logs with a verdict

`handle_logs_export` of `daemon/rpc_handler.rs`: the filter is resolved, the
requested range is lowered into it, one record more than asked for is read so
that a capped reply is known as one, and the verdict is assembled from the
loss floor, the epoch log, the cap and the window the query resolved to.

A `complete` verdict vouches for the window it was judged over: a settled
record in it that matches the filter is held (`held_of_complete`), and every
held match is in the reply (`exportRead_all`).

Key definitions: `lowerSeqRange`, `judgedWindow`, `exportRead`, `exportLogs`,
`handleLogsExport`.
Key theorems: `exportRead_all`, `export_vouches`.
-/
import Logmon.Daemon.LogProcessor
import Logmon.Filter.Resolver

namespace Logmon

open Lib

/-- Parse a filter parameter to nothing when there is none, else resolve it:
`parse_and_resolve_filter`, past the parsing. -/
def parseAndResolveFilter (filter : Option ParsedFilter) (p : LogPipeline) (bookmarks : BookmarkStore)
    (session : SessionName) (now : ℤ) :
    BookmarkStore × Except BookmarkResolutionError (Option ParsedFilter × Option CursorCommit) :=
  match filter with
  | none => (bookmarks, .ok (none, none))
  | some f =>
    match resolveBookmarksAt f bookmarks session p.store.lateCounter now with
    | (bookmarks, .error e) => (bookmarks, .error e)
    | (bookmarks, .ok r) => (bookmarks, .ok (some r.filter, r.cursorCommit))

/-- The strict bounds of an inclusive range. -/
def rangeBounds (fromSeq toSeq : Option ℕ) : List Qualifier :=
  (fromSeq.map fun n => Qualifier.seqFilter .gt (n - 1)).toList ++
    (toSeq.map fun n => Qualifier.seqFilter .lt (satAdd n 1)).toList

/-- Fold an inclusive range into the filter. -/
def lowerSeqRange (resolved : Option ParsedFilter) (fromSeq toSeq : Option ℕ) : Option ParsedFilter :=
  if fromSeq.isNone && toSeq.isNone then resolved
  else
    match resolved with
    | some .none => some .none
    | some (.qualifiers qs) => some (.qualifiers (qs ++ rangeBounds fromSeq toSeq))
    | _ => some (.qualifiers (rangeBounds fromSeq toSeq))

/-- What a cursor's commit reports. -/
structure CursorOutcome where
  advancedTo : Option ℕ
  late : ℕ
  lateLost : Option ℕ
  deriving DecidableEq

/-- `commit_cursor`: commit the read for the first `kept` records it took. -/
def commitCursor (bookmarks : BookmarkStore) (commit : CursorCommit) (read : CursorRead) (kept : ℕ) (now : ℤ) :
    BookmarkStore × CursorOutcome :=
  let adv := read.advanceFor kept
  (bookmarks.commit commit adv.seq adv.lateMark now,
   ⟨if adv.seq ≠ commit.lowerBound then some adv.seq else none, adv.late, adv.lateLost⟩)

/-- What the query of an export found. -/
structure ExportRead where
  entries : List LogEntry
  view : RingView
  capped : Bool
  cursor : Option CursorOutcome
  bookmarks : BookmarkStore

/-- The query of an export: one more than `count` is asked for, so that
`capped` is a fact, and only what is kept is committed. -/
def exportRead (E : TextEnv) (p : LogPipeline) (bookmarks : BookmarkStore) (count : ℕ)
    (resolved : Option ParsedFilter) (cursorCommit : Option CursorCommit) (now : ℤ) : ExportRead :=
  let probe := satAdd count 1
  match cursorCommit with
  | some commit =>
    let read := p.store.cursorRead E probe resolved commit.cursorPos
    let kept := min read.entries.length count
    let (bookmarks, outcome) := commitCursor bookmarks commit read kept now
    ⟨read.intoKeptEntries kept, read.view, read.entries.length > count, some outcome, bookmarks⟩
  | none =>
    let (entries, view) := p.store.recentWithView E probe resolved false
    ⟨entries.take count, view, entries.length > count, none, bookmarks⟩

/-- The window an export is judged over. An end the query does not give is
where this incarnation can answer from, or the newest seq assigned; an empty
ring has no window. -/
def judgedWindow (p : LogPipeline) (resolved : Option ParsedFilter) (view : RingView) : Option (ℕ × ℕ) :=
  match view.oldestSeq with
  | none => none
  | some _ =>
    let range := resolvedSeqRange resolved
    let lo := range.1.getD (max (max (satAdd p.epochs.originSeq 1) view.lostBelow) p.store.admitFrom)
    let hi := range.2.getD p.seq
    if lo ≤ hi then some (lo, hi) else none

/-- The reply of an export, with the window its verdict is about. -/
structure ExportReply where
  logs : List LogEntry
  view : RingView
  evictedBeforeWindow : Option ℕ
  capped : Bool
  verdict : EvidenceVerdict
  narrowedBy : List NarrowedSpan
  cursor : Option CursorOutcome
  window : Option (ℕ × ℕ)

/-- The export of a resolved query. -/
def exportLogs (E : TextEnv) (p : LogPipeline) (bookmarks : BookmarkStore) (count : ℕ)
    (resolved : Option ParsedFilter) (cursorCommit : Option CursorCommit) (now : ℤ) : BookmarkStore × ExportReply :=
  let read := exportRead E p bookmarks count resolved cursorCommit now
  let evicted := resolved.bind fun f => evictedBeforeWindow f read.view.lostBelow
  let window := judgedWindow p resolved read.view
  let coverage := window.map fun w => p.epochs.coverage w.1 w.2
  (read.bookmarks,
   { logs := read.entries
     view := read.view
     evictedBeforeWindow := evicted
     capped := read.capped
     verdict := evidenceVerdict coverage evicted.isSome read.capped
     narrowedBy := (coverage.map EpochCoverage.narrowed).getD []
     cursor := read.cursor
     window := window })

/-- The parameters of `logs.export`, its filter parsed. -/
structure ExportRequest where
  count : Option ℕ
  filter : Option ParsedFilter
  fromSeq : Option ℕ
  toSeq : Option ℕ
  from_le : ∀ n ∈ fromSeq, n ≤ u64Max

def handleLogsExport (E : TextEnv) (p : LogPipeline) (bookmarks : BookmarkStore) (session : SessionName)
    (req : ExportRequest) (now : ℤ) : BookmarkStore × Except BookmarkResolutionError ExportReply :=
  match parseAndResolveFilter req.filter p bookmarks session now with
  | (bookmarks, .error e) => (bookmarks, .error e)
  | (bookmarks, .ok (resolved, cursorCommit)) =>
    let (bookmarks, reply) := exportLogs E p bookmarks (req.count.getD u64Max)
      (lowerSeqRange resolved req.fromSeq req.toSeq) cursorCommit now
    (bookmarks, .ok reply)

/-! ### What an uncapped read holds -/

variable {E : TextEnv} {p : LogPipeline} {bookmarks : BookmarkStore} {count : ℕ} {resolved : Option ParsedFilter}
  {commit : Option CursorCommit} {now : ℤ}

namespace InMemoryStore

/-- An uncapped query took every match. -/
theorem WF.recent_uncapped {r : InMemoryStore} (h : r.WF)
    (hcap : ¬ (r.recentWithView E (satAdd count 1) resolved false).1.length > count) :
    (r.recentWithView E (satAdd count 1) resolved false).1.take count =
      r.entries.reverse.filter (matchesOpt? E resolved) := by
  have hpos : 0 < satAdd count 1 := by
    unfold satAdd u64Max
    omega
  have hread : (r.recentWithView E (satAdd count 1) resolved false).1 =
      (r.entries.reverse.filter (matchesOpt? E resolved)).take (satAdd count 1) := by
    have := @recentWalk_fst E (satAdd count 1) resolved r.entries.reverse [] 0 hpos
    simpa [recentWithView] using this
  have hlen : (r.entries.reverse.filter (matchesOpt? E resolved)).length ≤ u64Max := by
    have h1 := List.length_filter_le (matchesOpt? E resolved) r.entries.reverse
    have h2 := h.len
    have h3 := r.capacity_le
    rw [List.length_reverse] at h1
    omega
  rw [hread, List.length_take] at hcap
  rw [hread, List.take_take, List.take_of_length_le]
  unfold satAdd at hcap ⊢
  omega

/-- The records a cursor read could take are distinct records of the ring. -/
theorem WF.length_candidates_le {r : InMemoryStore} (h : r.WF) (pos : CursorPos) :
    (lateCandidates E r resolved pos ++ normalCandidates E r resolved pos).length ≤ u64Max := by
  set c := lateCandidates E r resolved pos ++ normalCandidates E r resolved pos with hc
  have hnodup : (c.map fun p => p.1.seq).Nodup := by
    rw [hc, List.map_append, List.nodup_append]
    refine ⟨h.nodup_lateCandidates, h.asc_normalCandidates.nodup_keys, fun a ha b hb => ?_⟩
    obtain ⟨x, hx, rfl⟩ := List.mem_map.mp ha
    obtain ⟨y, hy, rfl⟩ := List.mem_map.mp hb
    obtain ⟨-, -, -, -, -, -, -, hle⟩ := h.of_mem_lateCandidates hx
    have hlt := (mem_normalCandidates.mp hy).2.1
    exact Nat.ne_of_lt (Nat.lt_of_le_of_lt hle hlt)
  have hsub : (c.map fun p => p.1.seq) ⊆ r.entries.map LogEntry.seq := by
    intro n hn
    obtain ⟨x, hx, rfl⟩ := List.mem_map.mp hn
    rcases List.mem_append.mp hx with hx | hx
    · obtain ⟨-, -, -, hx, -⟩ := h.of_mem_lateCandidates hx
      exact List.mem_map_of_mem hx
    · exact List.mem_map_of_mem (mem_normalCandidates.mp hx).1
  have hle := (List.subperm_of_subset hnodup hsub).length_le
  simp only [List.length_map] at hle
  have := h.len
  have := r.capacity_le
  omega

end InMemoryStore

open InMemoryStore in
/-- **An uncapped export has every match the ring holds.** -/
theorem exportRead_all (h : p.store.WF) (hcap : (exportRead E p bookmarks count resolved commit now).capped = false)
    {e : LogEntry} (he : e ∈ p.store.entries) (hm : matchesOpt? E resolved e = true)
    (hpos : ∀ c ∈ commit, c.lowerBound < e.seq) :
    e ∈ (exportRead E p bookmarks count resolved commit now).entries := by
  cases commit with
  | none =>
    simp only [exportRead, decide_eq_false_iff_not] at hcap ⊢
    rw [h.recent_uncapped hcap]
    exact List.mem_filter.mpr ⟨List.mem_reverse.mpr he, hm⟩
  | some c =>
    have hcand : (e, none) ∈ normalCandidates E p.store resolved c.cursorPos :=
      mem_normalCandidates.mpr ⟨he, hpos c rfl, hm, rfl⟩
    simp only [exportRead, decide_eq_false_iff_not] at hcap ⊢
    unfold CursorRead.intoKeptEntries
    rw [mem_sortByKey, keptEntries_eq h.late, List.mem_map]
    refine ⟨(e, none), ?_, rfl⟩
    have hlen := @WF.length_candidates_le E resolved p.store h c.cursorPos
    rw [cursorRead_entries h.late, List.length_take] at hcap ⊢
    rw [List.take_of_length_le]
    · exact List.mem_append_right _ hcand
    · unfold satAdd at hcap ⊢
      omega

/-! ### What a complete verdict vouches for -/

/-- The ends of a judged window lie inside every bound of the query. -/
theorem judgedWindow_inside {view : RingView} {lo hi : ℕ} (h : judgedWindow p resolved view = some (lo, hi)) :
    view.oldestSeq ≠ none ∧ (∀ n, (resolvedSeqRange resolved).1 = some n → lo = n) ∧
      ((resolvedSeqRange resolved).1 = none → view.lostBelow ≤ lo) ∧
      ∀ n, (resolvedSeqRange resolved).2 = some n → hi = n := by
  unfold judgedWindow at h
  split at h
  · simp at h
  rename_i oldest hold
  dsimp only at h
  split at h
  · obtain ⟨rfl, rfl⟩ := Prod.mk.inj (Option.some.inj h)
    refine ⟨by simp [hold], fun n hn => by rw [hn]; rfl, fun hn => ?_, fun n hn => by rw [hn]; rfl⟩
    rw [hn]
    exact le_trans (le_max_right _ _) (le_max_left _ _)
  · simp at h

/-- A record in the window matches the lowered range as it matches the
filter. -/
theorem matches_lowered {fromSeq toSeq : Option ℕ} (hfrom : ∀ n ∈ fromSeq, n ≤ u64Max) {view : RingView} {lo hi : ℕ}
    (hw : judgedWindow p (lowerSeqRange resolved fromSeq toSeq) view = some (lo, hi)) {y : LogEntry}
    (hlo : lo ≤ y.seq) (hhi : y.seq ≤ hi) (hm : matchesOpt? E resolved y = true) :
    matchesOpt? E (lowerSeqRange resolved fromSeq toSeq) y = true := by
  obtain ⟨-, hwlo, -, hwhi⟩ := judgedWindow_inside hw
  -- a bound of the range holds of every seq of the window
  have hbound : ∀ qs, lowerSeqRange resolved fromSeq toSeq = some (.qualifiers qs) →
      ∀ q ∈ rangeBounds fromSeq toSeq, q ∈ qs → matchesQualifier E q y = true := by
    intro qs hqs q hq hmem
    rw [hqs] at hwlo hwhi
    have ht := resolvedSeqRange_tightened qs
    rcases List.mem_append.mp hq with hq | hq
    · obtain ⟨n, hn, rfl⟩ := Option.map_eq_some_iff.mp (Option.mem_toList.mp hq)
      obtain ⟨k, hk, hle⟩ := ht.lo _ hmem (n - 1) rfl
      have hkeq := hwlo k hk
      have hn64 := hfrom n hn
      show decide (n - 1 < y.seq) = true
      rw [decide_eq_true_eq]
      have : n - 1 < satAdd (n - 1) 1 := by
        unfold satAdd u64Max at *
        omega
      omega
    · obtain ⟨n, hn, rfl⟩ := Option.map_eq_some_iff.mp (Option.mem_toList.mp hq)
      obtain ⟨k, hk, hle⟩ := ht.hi _ hmem (satAdd n 1) rfl
      have hkeq := hwhi k hk
      show decide (y.seq < satAdd n 1) = true
      rw [decide_eq_true_eq]
      have : 0 < satAdd n 1 := by
        unfold satAdd u64Max
        omega
      omega
  unfold lowerSeqRange at hbound ⊢
  split
  · exact hm
  rename_i hsome
  rw [if_neg hsome] at hbound
  split at hbound
  · exact hm
  · rename_i qs
    have hqs : (qs.all fun q => matchesQualifier E q y) = true := hm
    show ((qs ++ rangeBounds fromSeq toSeq).all fun q => matchesQualifier E q y) = true
    rw [List.all_append, Bool.and_eq_true]
    exact ⟨hqs, List.all_eq_true.mpr fun q hq => hbound _ rfl q hq (List.mem_append_right _ hq)⟩
  · show ((rangeBounds fromSeq toSeq).all fun q => matchesQualifier E q y) = true
    exact List.all_eq_true.mpr fun q hq => hbound _ rfl q hq hq

/-- A lost record the floor does not pass is the one record the ring can
still hold. -/
theorem LogPipeline.Sound.held_of_top {arrived : List LogEntry} (h : LogPipeline.Sound arrived p) {y : LogEntry}
    (hy : y ∈ arrived) (hlost : p.Lost y) (hle : p.store.lostBelow ≤ y.seq) (hne : p.store.entries ≠ []) :
    p.Held y := by
  obtain ⟨e, he⟩ := List.exists_mem_of_ne_nil _ hne
  have h1 := h.wf.lost e he
  have h2 := e.seq_le
  have h3 := y.seq_le
  unfold LogPipeline.Lost satAdd at hlost
  have hseq : y.seq = e.seq := by omega
  refine h.held_of_contains hy ((InMemoryStore.holds_iff h.wf.asc y.seq).mpr ⟨e, he, hseq.symm⟩)

/-- The window of a complete export has no dark seq in it. -/
theorem not_dark_of_complete (hc : (exportLogs E p bookmarks count resolved commit now).2.verdict = .complete) :
    ∃ lo hi, (exportLogs E p bookmarks count resolved commit now).2.window = some (lo, hi) ∧
      ∀ n, lo ≤ n → n ≤ hi → n ≤ u64Max → ¬ p.epochs.Dark n := by
  obtain ⟨c, hcov, hcovered, hnarrowed, -⟩ := evidenceVerdict_complete hc
  obtain ⟨⟨lo, hi⟩, hwindow, rfl⟩ := Option.map_eq_some_iff.mp hcov
  exact ⟨lo, hi, hwindow, fun n hlo hhi hmax => EpochLog.not_dark_of_coverage hcovered hnarrowed hlo hhi hmax⟩

/-- **A settled record of a window judged complete is held.** -/
theorem held_of_complete {arrived : List LogEntry} (h : LogPipeline.Sound arrived p)
    (hc : (exportLogs E p bookmarks count resolved commit now).2.verdict = .complete) :
    ∃ lo hi, (exportLogs E p bookmarks count resolved commit now).2.window = some (lo, hi) ∧
      ∀ y ∈ arrived, p.Settled y → lo ≤ y.seq → y.seq ≤ hi → p.Held y := by
  obtain ⟨-, -, -, -, hevicted, -⟩ := evidenceVerdict_complete hc
  obtain ⟨lo, hi, hwindow, hlit⟩ := not_dark_of_complete hc
  refine ⟨lo, hi, hwindow, fun y hy hsettled hlo hhi => ?_⟩
  obtain ⟨hold, hwlo, hwfloor, -⟩ := judgedWindow_inside hwindow
  have hview : (exportRead E p bookmarks count resolved commit now).view.lostBelow = p.store.lostBelow := by
    cases commit <;> rfl
  have holdest : (exportRead E p bookmarks count resolved commit now).view.oldestSeq =
      p.store.entries.head?.map LogEntry.seq := by
    cases commit <;> rfl
  have hne : p.store.entries ≠ [] := by
    intro hnil
    rw [holdest, hnil] at hold
    exact hold rfl
  have hfloor : p.store.lostBelow ≤ y.seq := by
    refine le_trans ?_ hlo
    cases hrange : (resolvedSeqRange resolved).1 with
    | none =>
      rw [← hview]
      exact hwfloor hrange
    | some n =>
      rw [hwlo n hrange]
      cases resolved with
      | none => simp [resolvedSeqRange] at hrange
      | some f =>
        refine lostBelow_le_of_evicted_none hrange ?_
        rw [← hview]
        simpa using hevicted
  rcases hsettled with hheld | hlost | hdark
  · exact hheld
  · exact h.held_of_top hy hlost hfloor hne
  · exact absurd hdark (hlit y.seq hlo hhi y.seq_le)

/-- The cursor of a resolved query stands below what the query matches. -/
theorem lowerBound_lt_of_matches {f : Option ParsedFilter} {session : SessionName} {b : BookmarkStore}
    (hr : parseAndResolveFilter f p bookmarks session now = (b, .ok (resolved, commit))) {y : LogEntry}
    (hm : matchesOpt? E resolved y = true) : ∀ c ∈ commit, c.lowerBound < y.seq := by
  intro c hc
  unfold parseAndResolveFilter at hr
  split at hr
  · simp only [Prod.mk.injEq, Except.ok.injEq] at hr
    obtain ⟨-, -, rfl⟩ := hr
    simp at hc
  · split at hr
    · simp at hr
    · rename_i r hres
      simp only [Prod.mk.injEq, Except.ok.injEq] at hr
      obtain ⟨-, rfl, rfl⟩ := hr
      obtain ⟨qs, hqs, hmem⟩ := resolveBookmarksAt_commit hres c hc
      have hall : (qs.all fun q => matchesQualifier E q y) = true := by
        rw [hqs] at hm
        exact hm
      simpa [matchesQualifier] using List.all_eq_true.mp hall _ hmem

/-- **What `complete` vouches for.** Where every arrived record is settled,
the reply has every one of the judged window that matches the filter. -/
theorem export_vouches {arrived : List LogEntry} (h : LogPipeline.Sound arrived p)
    (hsettled : ∀ y ∈ arrived, p.Settled y) {session : SessionName} {req : ExportRequest} {b : BookmarkStore}
    {reply : ExportReply} (hreply : handleLogsExport E p bookmarks session req now = (b, .ok reply))
    (hc : reply.verdict = .complete) :
    ∃ b' resolved commit lo hi, parseAndResolveFilter req.filter p bookmarks session now = (b', .ok (resolved, commit)) ∧
      reply.window = some (lo, hi) ∧ ∀ y ∈ arrived, lo ≤ y.seq → y.seq ≤ hi → matchesOpt? E resolved y = true →
        ∃ e ∈ reply.logs, e.SameRecord y := by
  unfold handleLogsExport at hreply
  split at hreply
  · simp at hreply
  rename_i b' resolved commit hres
  simp only [Prod.mk.injEq, Except.ok.injEq] at hreply
  obtain ⟨-, rfl⟩ := hreply
  obtain ⟨lo, hi, hwindow, hheld⟩ := held_of_complete h hc
  refine ⟨b', resolved, commit, lo, hi, hres, hwindow, fun y hy hlo hhi hm => ?_⟩
  obtain ⟨e, he, hrec⟩ := hheld y hy (hsettled y hy) hlo hhi
  refine ⟨e, ?_, hrec⟩
  obtain ⟨-, -, -, -, -, hcap⟩ := evidenceVerdict_complete hc
  have hlowered := matches_lowered (E := E) req.from_le hwindow hlo hhi hm
  refine exportRead_all h.wf hcap he ?_ ?_
  · rw [← hlowered]
    exact matchesOpt_sameRecord hrec _
  · rw [hrec.seq]
    exact lowerBound_lt_of_matches hres hm

/-- A record of the requested range that matches the filter matches the
lowered one. -/
theorem matches_of_range {lo hi : ℕ} {y : LogEntry} (hpos : 0 < y.seq) (hmax : y.seq < u64Max) (hlo : lo ≤ y.seq)
    (hhi : y.seq ≤ hi) (hm : matchesOpt? E resolved y = true) :
    matchesOpt? E (lowerSeqRange resolved (some lo) (some hi)) y = true := by
  have hbounds : ((rangeBounds (some lo) (some hi)).all fun q => matchesQualifier E q y) = true := by
    have h1 : lo - 1 < y.seq := by omega
    have h2 : y.seq < satAdd hi 1 := by
      unfold satAdd
      omega
    simp [rangeBounds, matchesQualifier, h1, h2]
  unfold lowerSeqRange
  rw [if_neg (by simp)]
  split
  · exact hm
  · rename_i qs
    have hqs : (qs.all fun q => matchesQualifier E q y) = true := hm
    show ((qs ++ rangeBounds (some lo) (some hi)).all fun q => matchesQualifier E q y) = true
    rw [List.all_append, hqs, hbounds]
    rfl
  · exact hbounds

/-- A range bounds the query at both ends. -/
theorem lowered_bounded {lo hi : ℕ} {y : LogEntry} (hm : matchesOpt? E resolved y = true) :
    (∃ n, (resolvedSeqRange (lowerSeqRange resolved (some lo) (some hi))).1 = some n) ∧
      ∃ n, (resolvedSeqRange (lowerSeqRange resolved (some lo) (some hi))).2 = some n := by
  have hqs : ∃ qs, lowerSeqRange resolved (some lo) (some hi) = some (.qualifiers qs) ∧
      ∀ q ∈ rangeBounds (some lo) (some hi), q ∈ qs := by
    unfold lowerSeqRange
    rw [if_neg (by simp)]
    split
    · simp [matchesOpt?, matchesEntry] at hm
    · exact ⟨_, rfl, fun q hq => List.mem_append_right _ hq⟩
    · exact ⟨_, rfl, fun _ hq => hq⟩
  obtain ⟨qs, heq, hsub⟩ := hqs
  rw [heq]
  have ht := resolvedSeqRange_tightened qs
  obtain ⟨n, hn, -⟩ := ht.lo (.seqFilter .gt (lo - 1)) (hsub _ (by simp [rangeBounds])) _ rfl
  obtain ⟨m, hm, -⟩ := ht.hi (.seqFilter .lt (satAdd hi 1)) (hsub _ (by simp [rangeBounds])) _ rfl
  exact ⟨⟨n, hn⟩, m, hm⟩

/-- An export of an explicit range is judged over every match of the range. -/
theorem window_encloses {session : SessionName} {req : ExportRequest} {b b' : BookmarkStore} {reply : ExportReply}
    (hreply : handleLogsExport E p bookmarks session req now = (b, .ok reply))
    (hres : parseAndResolveFilter req.filter p bookmarks session now = (b', .ok (resolved, commit))) {l u : ℕ}
    (hw : reply.window = some (l, u)) {lo hi : ℕ} (hlo : req.fromSeq = some lo) (hhi : req.toSeq = some hi)
    {y : LogEntry} (hpos : 0 < y.seq) (hmax : y.seq < u64Max) (hloy : lo ≤ y.seq) (hyhi : y.seq ≤ hi)
    (hm : matchesOpt? E resolved y = true) : l ≤ y.seq ∧ y.seq ≤ u := by
  unfold handleLogsExport at hreply
  rw [hres] at hreply
  simp only [Prod.mk.injEq, Except.ok.injEq, hlo, hhi] at hreply
  obtain ⟨-, rfl⟩ := hreply
  obtain ⟨-, hwlo, -, hwhi⟩ := judgedWindow_inside hw
  have hmatch := matches_of_range (E := E) hpos hmax hloy hyhi hm
  obtain ⟨hl, hu⟩ := resolvedSeqRange_encloses hmatch
  obtain ⟨⟨n, hn⟩, m, hm'⟩ := @lowered_bounded E resolved lo hi y hm
  rw [hwlo n hn, hwhi m hm']
  exact ⟨hl n hn, hu m hm'⟩

end Logmon
