/-
# Reading the ring

The readers of `store/memory.rs`: the `recent` query with the ring it ran
over, and the cursor read with the position it commits to.

A cursor read takes the cursor's LATE part (records stored late since its
mark, at or below its position, above its floor) and then its normal part
(records above its position), up to a budget. Both walks come to lists that
do not mention the budget: `lateCandidates` and `normalCandidates`. The read
takes a prefix of their concatenation (`cursorRead_entries`), and a commit
either passes all of the late part and some of the normal one, or some of the
late part and nothing else (`CursorRead.advanceFor_all`,
`CursorRead.advanceFor_part`).

Key definitions: `recentWithView`, `cursorRead`, `CursorRead.advanceFor`,
`lateCandidates`, `normalCandidates`.
-/
import Logmon.Store.Offer

namespace Logmon

open Lib

/-- The ring as a query saw it, read under the query's own lock. -/
structure RingView where
  /-- Records the query examined. -/
  scanned : ℕ
  len : ℕ
  oldestSeq : Option ℕ
  newestSeq : Option ℕ
  lostBelow : ℕ
  deriving DecidableEq

/-- A cursor's position: the seq it has read past, its late mark, and the
position it was created at. -/
structure CursorPos where
  seq : ℕ
  lateMark : ℕ
  floor : ℕ
  deriving DecidableEq

/-- A record taken from the late part: its number, and how many late records
numbered in `(mark, number]` were held. -/
structure LateTag where
  number : ℕ
  heldThrough : ℕ
  deriving DecidableEq

/-- What a cursor read took, in delivery order, and what the commit needs. -/
structure CursorRead where
  entries : List (LogEntry × Option LateTag)
  pos : CursorPos
  lateExhausted : Bool
  lateCounter : ℕ
  heldTotal : Option ℕ
  view : RingView

/-- Where a cursor moves after a read. -/
structure CursorAdvance where
  seq : ℕ
  lateMark : ℕ
  late : ℕ
  lateLost : Option ℕ
  deriving DecidableEq

namespace InMemoryStore

def view (r : InMemoryStore) (scanned : ℕ) : RingView where
  scanned := scanned
  len := r.entries.length
  oldestSeq := r.entries.head?.map LogEntry.seq
  newestSeq := r.entries.getLast?.map LogEntry.seq
  lostBelow := r.lostBelow

variable (E : TextEnv)

/-- The walk of `recent`: take matching records until `count` are taken. -/
def recentWalk (count : ℕ) (filter : Option ParsedFilter) :
    List LogEntry → List LogEntry × ℕ → List LogEntry × ℕ
  | [], w => w
  | e :: rest, (result, scanned) =>
    if !matchesOpt? E filter e then recentWalk count filter rest (result, scanned + 1)
    else if count ≤ (result ++ [e]).length then (result ++ [e], scanned + 1)
    else recentWalk count filter rest (result ++ [e], scanned + 1)

/-- `recent_with_view`: oldest or newest first. -/
def recentWithView (r : InMemoryStore) (count : ℕ) (filter : Option ParsedFilter) (oldestFirst : Bool) :
    List LogEntry × RingView :=
  let (result, scanned) :=
    recentWalk E count filter (if oldestFirst then r.entries else r.entries.reverse) ([], 0)
  (result, r.view scanned)

/-- `context_by_seq`: the record and its neighbours. -/
def contextBySeq (r : InMemoryStore) (seq before after : ℕ) : List LogEntry :=
  match r.position seq with
  | none => []
  | some idx => (r.entries.take (min (idx + after + 1) r.entries.length)).drop (idx - before)

/-- What the late walk of a cursor read has so far. -/
structure LateWalk where
  entries : List (LogEntry × Option LateTag)
  held : ℕ
  scanned : ℕ
  exhausted : Bool

/-- The late part, walked in late-number order until `count` are taken. -/
def lateWalk (r : InMemoryStore) (count : ℕ) (filter : Option ParsedFilter) (pos : CursorPos) :
    List (ℕ × ℕ) → LateWalk → LateWalk
  | [], w => w
  | (number, seq) :: rest, w =>
    let held := w.held + 1
    if pos.seq < seq ∨ seq ≤ pos.floor then
      -- the normal part's to judge, or never the cursor's
      lateWalk r count filter pos rest { w with held := held }
    else
      let scanned := w.scanned + 1
      match r.record? seq with
      | none => lateWalk r count filter pos rest { w with held := held, scanned := scanned }
      | some e =>
        if !matchesPast? E filter e then
          lateWalk r count filter pos rest { w with held := held, scanned := scanned }
        else
          let entries := w.entries ++ [(e, some ⟨number, held⟩)]
          if count ≤ entries.length then ⟨entries, held, scanned, false⟩
          else lateWalk r count filter pos rest { w with entries := entries, held := held, scanned := scanned }

/-- The normal part, oldest first, above the position. -/
def normalWalk (count : ℕ) (filter : Option ParsedFilter) (pos : CursorPos) :
    List LogEntry → List (LogEntry × Option LateTag) × ℕ → List (LogEntry × Option LateTag) × ℕ
  | [], w => w
  | e :: rest, (entries, scanned) =>
    if e.seq ≤ pos.seq ∨ !matchesOpt? E filter e then normalWalk count filter pos rest (entries, scanned + 1)
    else if count ≤ (entries ++ [(e, none)]).length then (entries ++ [(e, none)], scanned + 1)
    else normalWalk count filter pos rest (entries ++ [(e, none)], scanned + 1)

/-- The position is below every late seq held. -/
def belowEveryLateSeq (r : InMemoryStore) (pos : CursorPos) : Bool :=
  match r.lateBySeq.minKey? with
  | none => true
  | some lowest => decide (pos.seq < lowest)

/-- The late part of a cursor read. -/
def latePart (r : InMemoryStore) (count : ℕ) (filter : Option ParsedFilter) (pos : CursorPos) : LateWalk :=
  if count = 0 then ⟨[], 0, 0, false⟩
  else if r.belowEveryLateSeq pos then ⟨[], (r.late.above pos.lateMark).length, 0, true⟩
  else lateWalk E r count filter pos (r.late.above pos.lateMark) ⟨[], 0, 0, true⟩

/-- `cursor_read`: the late part first, then the normal part. -/
def cursorRead (r : InMemoryStore) (count : ℕ) (filter : Option ParsedFilter) (pos : CursorPos) : CursorRead :=
  let late := latePart E r count filter pos
  let (entries, scanned) :=
    if late.exhausted && late.entries.length < count then
      normalWalk E count filter pos r.entries (late.entries, late.scanned)
    else (late.entries, late.scanned)
  { entries := entries
    pos := pos
    lateExhausted := late.exhausted
    lateCounter := r.lateCounter
    heldTotal := if late.exhausted then some late.held else none
    view := r.view scanned }

end InMemoryStore

namespace CursorRead

/-- The records of the first `kept`, in delivery order. -/
def keptEntries (read : CursorRead) (kept : ℕ) : List LogEntry := (read.entries.take kept).map Prod.fst

/-- `into_kept_entries`: ascending by seq, what a reply lists. -/
def intoKeptEntries (read : CursorRead) (kept : ℕ) : List LogEntry :=
  sortByKey LogEntry.seq (read.keptEntries kept)

/-- The cursor's next position when the caller keeps the first `kept`
records. -/
def advanceFor (read : CursorRead) (kept : ℕ) : CursorAdvance :=
  let kept := min kept read.entries.length
  let lateTotal := (read.entries.filter fun p => p.2.isSome).length
  let pre := read.entries.take kept
  let lateKept := pre.filterMap Prod.snd
  let mark := read.pos.lateMark
  if read.lateExhausted && lateKept.length = lateTotal then
    let lateMark := max read.lateCounter mark
    { seq := ((pre.filter fun p => p.2.isNone).map fun p => p.1.seq).foldl max read.pos.seq
      lateMark := lateMark
      late := lateKept.length
      lateLost := read.heldTotal.map fun h => lateMark - mark - h }
  else match lateKept.getLast? with
    | some t => ⟨read.pos.seq, t.number, lateKept.length, some (t.number - mark - t.heldThrough)⟩
    | none => ⟨read.pos.seq, mark, 0, some 0⟩

/-- The position a commit of the first `kept` records moves to. -/
def posFor (read : CursorRead) (kept : ℕ) : CursorPos :=
  ⟨(read.advanceFor kept).seq, (read.advanceFor kept).lateMark, read.pos.floor⟩

end CursorRead

namespace InMemoryStore

/-! ### What the walks take -/

variable (E : TextEnv)

/-- A late record numbered `p.1.1` with seq `p.1.2`, the `p.2`-th held above
the mark, as the late part takes it. -/
def lateCandidate (r : InMemoryStore) (filter : Option ParsedFilter) (pos : CursorPos) (p : (ℕ × ℕ) × ℕ) :
    Option (LogEntry × Option LateTag) :=
  if pos.seq < p.1.2 ∨ p.1.2 ≤ pos.floor then none
  else match r.record? p.1.2 with
    | none => none
    | some e => if matchesPast? E filter e then some (e, some ⟨p.1.1, p.2⟩) else none

/-- The late part without a budget. -/
def lateCandidates (r : InMemoryStore) (filter : Option ParsedFilter) (pos : CursorPos) :
    List (LogEntry × Option LateTag) :=
  ((r.late.above pos.lateMark).zipIdx 1).filterMap (lateCandidate E r filter pos)

/-- The normal part without a budget. -/
def normalCandidates (r : InMemoryStore) (filter : Option ParsedFilter) (pos : CursorPos) :
    List (LogEntry × Option LateTag) :=
  (r.entries.filter fun e => decide (pos.seq < e.seq) && matchesOpt? E filter e).map fun e => (e, none)

/-- A walk over `n` numbers with candidates `c`, from `w` to `w'`: it took
candidates up to the budget, says whether any budget is left and, when it
reached the end, has counted every number. -/
structure LateWalk.Took (w w' : LateWalk) (count n : ℕ) (c : List (LogEntry × Option LateTag)) : Prop where
  entries : w'.entries = w.entries ++ c.take (count - w.entries.length)
  exhausted : w'.exhausted = decide (w.entries.length + c.length < count)
  held : w'.exhausted = true → w'.held = w.held + n

variable {E} {r : InMemoryStore} {count : ℕ} {filter : Option ParsedFilter} {pos : CursorPos}

theorem lateWalk_took : ∀ (l : List (ℕ × ℕ)) (w : LateWalk), w.entries.length < count → w.exhausted = true →
    w.Took (lateWalk E r count filter pos l w) count l.length
      ((l.zipIdx (w.held + 1)).filterMap (lateCandidate E r filter pos))
  | [], w, hw, hex => ⟨by simp [lateWalk], by simp [lateWalk, hw, hex], by simp [lateWalk]⟩
  | (number, seq) :: rest, w, hw, hex => by
    -- a number with no candidate: the walk goes on with the budget it had
    have hskip : ∀ sc, lateCandidate E r filter pos ((number, seq), w.held + 1) = none →
        lateWalk E r count filter pos ((number, seq) :: rest) w =
          lateWalk E r count filter pos rest ⟨w.entries, w.held + 1, sc, w.exhausted⟩ →
        w.Took (lateWalk E r count filter pos ((number, seq) :: rest) w) count ((number, seq) :: rest).length
          ((((number, seq) :: rest).zipIdx (w.held + 1)).filterMap (lateCandidate E r filter pos)) := by
      intro sc hnone heq
      obtain ⟨h1, h2, h3⟩ := lateWalk_took rest ⟨w.entries, w.held + 1, sc, w.exhausted⟩ hw hex
      rw [heq, List.zipIdx_cons, List.filterMap_cons_none hnone]
      refine ⟨h1, h2, fun h => ?_⟩
      rw [h3 h, List.length_cons]
      simp only
      omega
    by_cases hout : pos.seq < seq ∨ seq ≤ pos.floor
    · exact hskip w.scanned (by simp [lateCandidate, hout]) (by simp [lateWalk, hout])
    · cases hrec : r.record? seq with
      | none => exact hskip (w.scanned + 1) (by simp [lateCandidate, hout, hrec]) (by simp [lateWalk, hout, hrec])
      | some e =>
        by_cases hm : matchesPast? E filter e = true
        · have hsome : lateCandidate E r filter pos ((number, seq), w.held + 1) =
              some (e, some ⟨number, w.held + 1⟩) := by simp [lateCandidate, hout, hrec, hm]
          rw [List.zipIdx_cons, List.filterMap_cons_some hsome]
          by_cases hfull : count ≤ w.entries.length + 1
          · have heq : lateWalk E r count filter pos ((number, seq) :: rest) w =
                ⟨w.entries ++ [(e, some ⟨number, w.held + 1⟩)], w.held + 1, w.scanned + 1, false⟩ := by
              simp [lateWalk, hout, hrec, hm, hfull]
            have hone : count - w.entries.length = 1 := by omega
            rw [heq]
            refine ⟨by simp [hone], ?_, fun h => by simp at h⟩
            rw [List.length_cons, eq_comm, decide_eq_false_iff_not]
            omega
          · have heq : lateWalk E r count filter pos ((number, seq) :: rest) w =
                lateWalk E r count filter pos rest ⟨w.entries ++ [(e, some ⟨number, w.held + 1⟩)],
                  w.held + 1, w.scanned + 1, w.exhausted⟩ := by
              simp [lateWalk, hout, hrec, hm, hfull]
            have hlen : (w.entries ++ [(e, some (LateTag.mk number (w.held + 1)))]).length < count := by
              simp
              omega
            obtain ⟨h1, h2, h3⟩ := lateWalk_took rest ⟨w.entries ++ [(e, some ⟨number, w.held + 1⟩)],
              w.held + 1, w.scanned + 1, w.exhausted⟩ hlen hex
            rw [heq]
            have hsub : count - w.entries.length = (count - (w.entries.length + 1)) + 1 := by omega
            refine ⟨?_, ?_, fun h => ?_⟩
            · rw [h1, hsub, List.take_succ_cons]
              simp
            · rw [h2]
              simp only [List.length_append, List.length_cons, List.length_nil]
              congr 1
              simp only [eq_iff_iff]
              omega
            · rw [h3 h, List.length_cons]
              simp only
              omega
        · exact hskip (w.scanned + 1) (by simp [lateCandidate, hout, hrec, hm])
            (by simp [lateWalk, hout, hrec, hm])

theorem normalWalk_entries : ∀ (l : List LogEntry) (es : List (LogEntry × Option LateTag)) (n : ℕ),
    es.length < count → (normalWalk E count filter pos l (es, n)).1 = es ++
      ((l.filter fun e => decide (pos.seq < e.seq) && matchesOpt? E filter e).map fun e => (e, none)).take
        (count - es.length)
  | [], es, n, _ => by simp [normalWalk]
  | e :: rest, es, n, hes => by
    by_cases hskip : e.seq ≤ pos.seq ∨ (!matchesOpt? E filter e) = true
    · have hp : (decide (pos.seq < e.seq) && matchesOpt? E filter e) = false := by
        rcases hskip with h | h
        · simp [Nat.not_lt.mpr h]
        · have hm : matchesOpt? E filter e = false := by simpa using h
          simp [hm]
      rw [List.filter_cons, hp]
      have heq : normalWalk E count filter pos (e :: rest) (es, n) =
          normalWalk E count filter pos rest (es, n + 1) := by simp only [normalWalk, if_pos hskip]
      rw [heq]
      exact normalWalk_entries rest es (n + 1) hes
    · have hp : (decide (pos.seq < e.seq) && matchesOpt? E filter e) = true := by
        rw [not_or] at hskip
        simpa using hskip
      rw [List.filter_cons, hp]
      have hsub : count - es.length = (count - (es.length + 1)) + 1 := by omega
      simp only [↓reduceIte, List.map_cons]
      rw [hsub, List.take_succ_cons]
      by_cases hfull : count ≤ es.length + 1
      · have heq : normalWalk E count filter pos (e :: rest) (es, n) = (es ++ [(e, none)], n + 1) := by
          simp only [normalWalk, if_neg hskip, List.length_append, List.length_singleton, if_pos hfull]
        rw [heq, Nat.sub_eq_zero_of_le hfull]
        simp
      · have heq : normalWalk E count filter pos (e :: rest) (es, n) =
            normalWalk E count filter pos rest (es ++ [(e, none)], n + 1) := by
          simp only [normalWalk, if_neg hskip, List.length_append, List.length_singleton, if_neg hfull]
        have hlen : (es ++ [(e, (none : Option LateTag))]).length < count := by simp; omega
        rw [heq, normalWalk_entries rest (es ++ [(e, none)]) (n + 1) hlen]
        simp

/-- The walk of `recent` takes the first matches, up to the budget. -/
theorem recentWalk_fst : ∀ (l result : List LogEntry) (n : ℕ), result.length < count →
    (recentWalk E count filter l (result, n)).1 =
      result ++ (l.filter (matchesOpt? E filter)).take (count - result.length)
  | [], result, n, _ => by simp [recentWalk]
  | e :: rest, result, n, hres => by
    by_cases hm : matchesOpt? E filter e = true
    · rw [List.filter_cons_of_pos hm, show count - result.length = (count - (result.length + 1)) + 1 by omega,
        List.take_succ_cons]
      by_cases hfull : count ≤ result.length + 1
      · simp [recentWalk, hm, hfull, Nat.sub_eq_zero_of_le hfull]
      · have hlen : (result ++ [e]).length < count := by
          simp
          omega
        have hstep : recentWalk E count filter (e :: rest) (result, n) =
            recentWalk E count filter rest (result ++ [e], n + 1) := by
          simp [recentWalk, hm, hfull]
        rw [hstep, recentWalk_fst rest (result ++ [e]) (n + 1) hlen]
        simp
    · have hstep : recentWalk E count filter (e :: rest) (result, n) =
          recentWalk E count filter rest (result, n + 1) := by simp [recentWalk, hm]
      rw [hstep, List.filter_cons_of_neg hm]
      exact recentWalk_fst rest result (n + 1) hres

/-- Below every late seq the late part is empty. -/
theorem lateCandidates_below (h : r.LateMaps) (hb : r.belowEveryLateSeq pos = true) :
    lateCandidates E r filter pos = [] := by
  unfold lateCandidates
  rw [List.filterMap_eq_nil_iff]
  rintro ⟨⟨n, s⟩, i⟩ hmem
  have habove : (n, s) ∈ r.late.above pos.lateMark := List.fst_mem_of_mem_zipIdx hmem
  have hs : r.lateBySeq.get? s = some n := (h.inverse n s).mp (OrdMap.mem_above.mp habove).1
  have hlt : pos.seq < s := by
    unfold belowEveryLateSeq at hb
    split at hb
    · rename_i hmin
      rw [OrdMap.get?_eq_none_of_minKey? hmin] at hs
      exact absurd hs (by simp)
    · rename_i lowest hmin
      have := OrdMap.minKey?_le hs hmin
      have hb' : pos.seq < lowest := by simpa using hb
      omega
  simp [lateCandidate, hlt]

/-- The late part: candidates up to the budget, and every held number counted
when the budget was not spent. -/
theorem latePart_took (h : r.LateMaps) (hc : count ≠ 0) :
    (LateWalk.mk [] 0 0 true).Took (latePart E r count filter pos) count (r.late.above pos.lateMark).length
      (lateCandidates E r filter pos) := by
  unfold latePart
  rw [if_neg hc]
  split_ifs with hb
  · rw [lateCandidates_below h hb]
    refine ⟨by simp, ?_, fun _ => by simp⟩
    simpa using Nat.pos_of_ne_zero hc
  · exact lateWalk_took _ _ (Nat.pos_of_ne_zero hc) rfl

@[simp] theorem cursorRead_pos : (cursorRead E r count filter pos).pos = pos := rfl

@[simp] theorem cursorRead_lateCounter : (cursorRead E r count filter pos).lateCounter = r.lateCounter := rfl

@[simp] theorem cursorRead_lostBelow : (cursorRead E r count filter pos).view.lostBelow = r.lostBelow := rfl

/-- The late part was walked to its end when it left some budget. -/
theorem cursorRead_lateExhausted (h : r.LateMaps) : (cursorRead E r count filter pos).lateExhausted =
    decide ((lateCandidates E r filter pos).length < count) := by
  by_cases hc : count = 0
  · simp [cursorRead, latePart, hc]
  · have took : LateWalk.Took _ (latePart E r count filter pos) _ _ _ := latePart_took h hc
    have hread : (cursorRead E r count filter pos).lateExhausted = (latePart E r count filter pos).exhausted := rfl
    rw [hread, took.exhausted]
    simp

/-- **What a cursor read takes**: the late part, then the normal part, up to
`count`. -/
theorem cursorRead_entries (h : r.LateMaps) : (cursorRead E r count filter pos).entries =
    (lateCandidates E r filter pos ++ normalCandidates E r filter pos).take count := by
  by_cases hc : count = 0
  · simp [cursorRead, latePart, hc]
  have took : LateWalk.Took _ (latePart E r count filter pos) _ _ _ := latePart_took h hc
  have hent : (latePart E r count filter pos).entries = (lateCandidates E r filter pos).take count := by
    simpa using took.entries
  have hex : (latePart E r count filter pos).exhausted =
      decide ((lateCandidates E r filter pos).length < count) := by simpa using took.exhausted
  have hread : (cursorRead E r count filter pos).entries =
      (if (latePart E r count filter pos).exhausted && decide ((latePart E r count filter pos).entries.length < count)
        then normalWalk E count filter pos r.entries
          ((latePart E r count filter pos).entries, (latePart E r count filter pos).scanned)
        else ((latePart E r count filter pos).entries, (latePart E r count filter pos).scanned)).1 := rfl
  rw [hread, hex, hent]
  by_cases hlen : (lateCandidates E r filter pos).length < count
  · have htake : (lateCandidates E r filter pos).take count = lateCandidates E r filter pos :=
      List.take_of_length_le hlen.le
    rw [htake, if_pos (by simp [hlen]), normalWalk_entries _ _ _ hlen, List.take_append, htake]
    rfl
  · have hle : count ≤ (lateCandidates E r filter pos).length := by omega
    rw [if_neg (by simp [hlen]), List.take_append_of_le_length hle]

theorem cursorRead_heldTotal (h : r.LateMaps)
    (hex : (lateCandidates E r filter pos).length < count) :
    (cursorRead E r count filter pos).heldTotal = some (r.late.above pos.lateMark).length := by
  have hc : count ≠ 0 := by omega
  have took : LateWalk.Took _ (latePart E r count filter pos) _ _ _ := latePart_took h hc
  have hexh : (latePart E r count filter pos).exhausted = true := by
    rw [took.exhausted]
    simpa using hex
  have hread : (cursorRead E r count filter pos).heldTotal =
      if (latePart E r count filter pos).exhausted then some (latePart E r count filter pos).held else none := rfl
  rw [hread, if_pos hexh, took.held hexh]
  simp

/-! ### Where a commit moves the cursor -/

theorem lateCandidate_eq_some {q : (ℕ × ℕ) × ℕ} {p : LogEntry × Option LateTag} :
    lateCandidate E r filter pos q = some p ↔ pos.floor < q.1.2 ∧ q.1.2 ≤ pos.seq ∧
      ∃ e, r.record? q.1.2 = some e ∧ matchesPast? E filter e = true ∧ p = (e, some ⟨q.1.1, q.2⟩) := by
  unfold lateCandidate
  split_ifs with hout
  · constructor
    · simp
    · rintro ⟨h1, h2, -⟩
      omega
  · have h1 : pos.floor < q.1.2 := by omega
    have h2 : q.1.2 ≤ pos.seq := by omega
    cases hrec : r.record? q.1.2 with
    | none => simp
    | some e =>
      by_cases hm : matchesPast? E filter e = true
      · simp only [hm, ↓reduceIte, Option.some.injEq]
        constructor
        · rintro rfl
          exact ⟨h1, h2, e, rfl, hm, rfl⟩
        · rintro ⟨-, -, x, rfl, -, rfl⟩
          rfl
      · simp [hm]

theorem isSome_of_mem_lateCandidates {p : LogEntry × Option LateTag}
    (hp : p ∈ lateCandidates E r filter pos) : p.2.isSome = true := by
  obtain ⟨q, -, hq⟩ := List.mem_filterMap.mp hp
  obtain ⟨-, -, e, -, -, rfl⟩ := lateCandidate_eq_some.mp hq
  rfl

theorem eq_none_of_mem_normalCandidates {p : LogEntry × Option LateTag}
    (hp : p ∈ normalCandidates E r filter pos) : p.2 = none := by
  obtain ⟨e, -, rfl⟩ := List.mem_map.mp hp
  rfl

section tags

variable {l : List (LogEntry × Option LateTag)}

theorem length_tags_of_late (h : ∀ p ∈ l, p.2.isSome = true) : (l.filterMap Prod.snd).length = l.length := by
  induction l with
  | nil => rfl
  | cons p l ih =>
    obtain ⟨t, ht⟩ := Option.isSome_iff_exists.mp (h p List.mem_cons_self)
    rw [List.filterMap_cons_some ht, List.length_cons, List.length_cons,
      ih fun q hq => h q (List.mem_cons_of_mem _ hq)]

theorem tags_of_normal (h : ∀ p ∈ l, p.2 = none) : l.filterMap Prod.snd = [] := by
  rw [List.filterMap_eq_nil_iff]
  exact h

theorem filter_late_of_late (h : ∀ p ∈ l, p.2.isSome = true) : l.filter (fun p => p.2.isSome) = l :=
  List.filter_eq_self.mpr h

theorem filter_late_of_normal (h : ∀ p ∈ l, p.2 = none) : l.filter (fun p => p.2.isSome) = [] := by
  rw [List.filter_eq_nil_iff]
  intro p hp
  simp [h p hp]

theorem filter_normal_of_late (h : ∀ p ∈ l, p.2.isSome = true) : l.filter (fun p => p.2.isNone) = [] := by
  rw [List.filter_eq_nil_iff]
  intro p hp
  simp [Option.isSome_iff_ne_none.mp (h p hp)]

theorem filter_normal_of_normal (h : ∀ p ∈ l, p.2 = none) : l.filter (fun p => p.2.isNone) = l := by
  rw [List.filter_eq_self]
  intro p hp
  simp [h p hp]

end tags

/-- The kept prefix of a read, as a prefix of what it could take. -/
theorem take_cursorRead_entries (h : r.LateMaps) (k : ℕ) :
    (cursorRead E r count filter pos).entries.take (min k (cursorRead E r count filter pos).entries.length) =
      (lateCandidates E r filter pos ++ normalCandidates E r filter pos).take (min k count) := by
  rw [cursorRead_entries h, List.take_take, List.length_take, List.take_eq_take_iff]
  omega

theorem keptEntries_eq (h : r.LateMaps) (k : ℕ) : (cursorRead E r count filter pos).keptEntries k =
    ((lateCandidates E r filter pos ++ normalCandidates E r filter pos).take (min k count)).map Prod.fst := by
  unfold CursorRead.keptEntries
  rw [cursorRead_entries h, List.take_take]

/-- The commit passes the whole late part. -/
def PassesLate (E : TextEnv) (r : InMemoryStore) (count : ℕ) (filter : Option ParsedFilter) (pos : CursorPos)
    (k : ℕ) : Prop :=
  (lateCandidates E r filter pos).length < count ∧ (lateCandidates E r filter pos).length ≤ k

/-- **A commit that keeps the whole late part** moves the mark to the
counter, and the seq to the highest normal record kept. -/
theorem advanceFor_all (h : r.LateMaps) {k : ℕ} (hall : PassesLate E r count filter pos k) :
    (cursorRead E r count filter pos).advanceFor k =
      { seq := (((normalCandidates E r filter pos).take (min k count - (lateCandidates E r filter pos).length)).map
          fun p => p.1.seq).foldl max pos.seq
        lateMark := max r.lateCounter pos.lateMark
        late := (lateCandidates E r filter pos).length
        lateLost := some (max r.lateCounter pos.lateMark - pos.lateMark - (r.late.above pos.lateMark).length) } := by
  obtain ⟨hC, hk⟩ := hall
  set C := lateCandidates E r filter pos with hCdef
  set N := normalCandidates E r filter pos with hNdef
  have hCs : ∀ p ∈ C, p.2.isSome = true := fun p hp => isSome_of_mem_lateCandidates hp
  have hNn : ∀ j, ∀ p ∈ N.take j, p.2 = none := fun j p hp =>
    eq_none_of_mem_normalCandidates (List.mem_of_mem_take hp)
  have hpre : (C ++ N).take (min k count) = C ++ N.take (min k count - C.length) := by
    rw [List.take_append, List.take_of_length_le (by omega)]
  have hent : (cursorRead E r count filter pos).entries = C ++ N.take (count - C.length) := by
    rw [cursorRead_entries h, List.take_append, List.take_of_length_le hC.le]
  have htotal : ((cursorRead E r count filter pos).entries.filter fun p => p.2.isSome).length = C.length := by
    rw [hent, List.filter_append, filter_late_of_late hCs, filter_late_of_normal (hNn _), List.append_nil]
  have hkept : ((C ++ N.take (min k count - C.length)).filterMap Prod.snd).length = C.length := by
    rw [List.filterMap_append, tags_of_normal (hNn _), List.append_nil, length_tags_of_late hCs]
  have hex : (cursorRead E r count filter pos).lateExhausted = true := by
    rw [cursorRead_lateExhausted h]
    simpa using hC
  simp only [CursorRead.advanceFor, take_cursorRead_entries h, ← hCdef, ← hNdef, hpre, htotal, hkept, hex,
    cursorRead_heldTotal h hC, cursorRead_pos, cursorRead_lateCounter, Bool.true_and, decide_true, ↓reduceIte,
    Option.map_some, List.filter_append, filter_normal_of_late hCs, filter_normal_of_normal (hNn _),
    List.nil_append]

/-- **A commit that leaves some of the late part** keeps the seq, and moves
the mark to the last late record kept. -/
theorem advanceFor_part (h : r.LateMaps) {k : ℕ} (hpart : ¬ PassesLate E r count filter pos k) :
    (cursorRead E r count filter pos).advanceFor k =
      match (((lateCandidates E r filter pos).take (min k count)).filterMap Prod.snd).getLast? with
      | some t => ⟨pos.seq, t.number, (((lateCandidates E r filter pos).take (min k count)).filterMap Prod.snd).length,
          some (t.number - pos.lateMark - t.heldThrough)⟩
      | none => ⟨pos.seq, pos.lateMark, 0, some 0⟩ := by
  unfold PassesLate at hpart
  set C := lateCandidates E r filter pos with hCdef
  set N := normalCandidates E r filter pos with hNdef
  have hCs : ∀ j, ∀ p ∈ C.take j, p.2.isSome = true := fun j p hp =>
    isSome_of_mem_lateCandidates (List.mem_of_mem_take hp)
  have hle : min k count ≤ C.length := by omega
  have hpre : (C ++ N).take (min k count) = C.take (min k count) := List.take_append_of_le_length hle
  have hno : ((cursorRead E r count filter pos).lateExhausted && decide (((C.take (min k count)).filterMap
      Prod.snd).length = ((cursorRead E r count filter pos).entries.filter fun p => p.2.isSome).length)) = false := by
    rw [cursorRead_lateExhausted h]
    by_cases hC : C.length < count
    · have hk : k < C.length := by omega
      have hent : (cursorRead E r count filter pos).entries = C ++ N.take (count - C.length) := by
        rw [cursorRead_entries h, List.take_append, List.take_of_length_le hC.le]
      have htotal : C.length ≤ ((cursorRead E r count filter pos).entries.filter fun p => p.2.isSome).length := by
        have hself : C.filter (fun p => p.2.isSome) = C :=
          filter_late_of_late fun p hp => isSome_of_mem_lateCandidates hp
        rw [hent, List.filter_append, hself, List.length_append]
        omega
      rw [length_tags_of_late (hCs _), List.length_take]
      simp only [Bool.and_eq_false_imp, decide_eq_true_eq, decide_eq_false_iff_not]
      omega
    · rw [decide_eq_false hC, Bool.false_and]
  simp only [CursorRead.advanceFor, take_cursorRead_entries h, ← hCdef, ← hNdef, hpre, hno, cursorRead_pos,
    Bool.false_eq_true, ↓reduceIte]

/-- The mark after the late records `l` were kept. -/
def markAfter (mark : ℕ) (l : List (LogEntry × Option LateTag)) : ℕ :=
  match (l.filterMap Prod.snd).getLast? with
  | some t => t.number
  | none => mark

/-- What a commit of the first `k` delivers and where it moves, when it
passes the whole late part. -/
theorem commit_all (h : r.LateMaps) {k : ℕ} (hall : PassesLate E r count filter pos k) :
    (cursorRead E r count filter pos).keptEntries k = (lateCandidates E r filter pos ++
      (normalCandidates E r filter pos).take (min k count - (lateCandidates E r filter pos).length)).map Prod.fst ∧
    (cursorRead E r count filter pos).posFor k = ⟨(((normalCandidates E r filter pos).take
      (min k count - (lateCandidates E r filter pos).length)).map fun p => p.1.seq).foldl max pos.seq,
      max r.lateCounter pos.lateMark, pos.floor⟩ := by
  refine ⟨?_, ?_⟩
  · have hle : (lateCandidates E r filter pos).length ≤ min k count := by
      have := hall.1
      have := hall.2
      omega
    rw [keptEntries_eq h, List.take_append, List.take_of_length_le hle]
  · unfold CursorRead.posFor
    rw [advanceFor_all h hall]
    rfl

/-- What a commit of the first `k` delivers and where it moves, when it
leaves some of the late part. -/
theorem commit_part (h : r.LateMaps) {k : ℕ} (hpart : ¬ PassesLate E r count filter pos k) :
    (cursorRead E r count filter pos).keptEntries k =
      ((lateCandidates E r filter pos).take (min k count)).map Prod.fst ∧
    (cursorRead E r count filter pos).posFor k = ⟨pos.seq,
      markAfter pos.lateMark ((lateCandidates E r filter pos).take (min k count)), pos.floor⟩ := by
  refine ⟨?_, ?_⟩
  · have hle : min k count ≤ (lateCandidates E r filter pos).length := by
      unfold PassesLate at hpart
      omega
    rw [keptEntries_eq h, List.take_append_of_le_length hle]
  · unfold CursorRead.posFor markAfter
    rw [advanceFor_part h hpart]
    cases (((lateCandidates E r filter pos).take (min k count)).filterMap Prod.snd).getLast? <;> rfl

end InMemoryStore
end Logmon
