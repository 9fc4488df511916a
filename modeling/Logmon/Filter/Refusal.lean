/-
# A refused filter and the bookmarks

`resolve_bookmarks_at` walks a filter's qualifiers once. A bookmark that does
not exist, or a cursor of another session, refuses the filter; a cursor of the
session that does not exist is created on the way, and its name leaves the
record of evicted cursors. So a refused filter leaves the store alone exactly
when the refusal comes before the first cursor the walk would create.

The walk here carries the record of evicted cursors too; without it, it is the
walk of `Logmon.Filter.Resolver` (`resolveBookmarksAt_store`).

Key definitions: `BookmarkState`, `Qualifier.opens`, `Qualifier.refused`,
`RefusedFirst`, `Walked`.
Key theorems: `resolveBookmarksAt_ends`, `resolveBookmarksAt_store`,
`refused_leaves_bookmarks_iff`.
-/
import Logmon.Filter.Resolver
import Mathlib.Data.Finset.Basic

namespace Logmon

open Lib

/-- `BookmarkStore`: the bookmarks, and the cursors a sweep evicted that were
not asked for since. -/
structure BookmarkState where
  store : BookmarkStore
  recentlyEvicted : Finset String

namespace BookmarkState

/-- `cursor_read_and_advance_at`: a created cursor is no longer an evicted
one. -/
def cursorReadAndAdvanceAt (s : BookmarkState) (session : SessionName) (name : String) (lateCounter : ℕ) (now : ℤ) :
    BookmarkState × CursorCommit :=
  let (store, commit) := s.store.cursorReadAndAdvanceAt session name lateCounter now
  match s.store.get? (qualify session name) with
  | some _ => (⟨store, s.recentlyEvicted⟩, commit)
  | none => (⟨store, s.recentlyEvicted.erase (qualify session name)⟩, commit)

/-- The loop over the qualifiers. -/
def resolveQualifiers (session : SessionName) (lateCounter : ℕ) (now : ℤ) :
    List Qualifier → BookmarkState → List Qualifier → Option CursorCommit →
      BookmarkState × Except BookmarkResolutionError ResolvedFilter
  | [], s, out, commit => (s, .ok ⟨.qualifiers out, commit⟩)
  | .bookmarkFilter op name :: qs, s, out, commit =>
    match s.store.get? (qualifyName name session) with
    | none => (s, .error (.notFound (qualifyName name session)))
    | some b => resolveQualifiers session lateCounter now qs s (out ++ [.seqFilter op.seqOp b.seq]) commit
  | .cursorFilter name :: qs, s, out, _ =>
    let (targetSession, targetName) := splitQualified (qualifyName name session)
    if targetSession ≠ session.text then (s, .error (.crossSessionCursorAdvance (qualifyName name session)))
    else
      let (s, commit) := s.cursorReadAndAdvanceAt session targetName lateCounter now
      resolveQualifiers session lateCounter now qs s (out ++ [.cursorSeq commit.lowerBound]) (some commit)
  | q :: qs, s, out, commit => resolveQualifiers session lateCounter now qs s (out ++ [q]) commit

/-- `resolve_bookmarks_at`, with the record of evicted cursors. -/
def resolveBookmarksAt (filter : ParsedFilter) (s : BookmarkState) (currentSession : SessionName) (lateCounter : ℕ)
    (now : ℤ) : BookmarkState × Except BookmarkResolutionError ResolvedFilter :=
  match filter with
  | .qualifiers qs => s.resolveQualifiers currentSession lateCounter now qs [] none
  | filter => (s, .ok ⟨filter, none⟩)

end BookmarkState

/-! ### What a qualifier does to the store -/

theorem mem_qualifyName (name : String) (session : SessionName) : '/' ∈ (qualifyName name session).toList := by
  unfold qualifyName
  split_ifs with h
  · exact h
  · simp [qualify]

/-- A text with a `/` is its two parts and the `/` between them. -/
theorem splitQualified_eq {q : String} (h : '/' ∈ q.toList) :
    q = (splitQualified q).1 ++ "/" ++ (splitQualified q).2 := by
  obtain ⟨before, after, hsplit, hno⟩ := List.eq_append_cons_of_mem h
  have hall : ∀ c ∈ before, decide (c ≠ '/') = true := fun c hc => by
    simp only [decide_eq_true_eq]
    rintro rfl
    exact hno hc
  have htake : q.toList.takeWhile (· ≠ '/') = before := by
    rw [hsplit, List.takeWhile_append_of_pos hall]
    simp
  have hdrop : q.toList.dropWhile (· ≠ '/') = '/' :: after := by
    rw [hsplit, List.dropWhile_append_of_pos hall]
    simp
  refine String.toList_injective ?_
  rw [splitQualified, htake, hdrop]
  simpa using hsplit

/-- The key of a cursor of the session itself. -/
def Qualifier.ownCursor (session : SessionName) : Qualifier → Option String
  | .cursorFilter name =>
    if (splitQualified (qualifyName name session)).1 = session.text then some (qualifyName name session) else none
  | _ => none

/-- The qualifier would create a cursor: it is the session's, and missing. -/
def Qualifier.opens (session : SessionName) (s : BookmarkStore) (q : Qualifier) : Bool :=
  (q.ownCursor session).any fun key => (s.get? key).isNone

/-- The qualifier refuses the filter, after the qualifiers `earlier`: a
bookmark that neither the store has nor an earlier cursor made, or a cursor of
another session. -/
def Qualifier.refused (session : SessionName) (s : BookmarkStore) (earlier : List Qualifier) : Qualifier → Bool
  | .bookmarkFilter _ name => (s.get? (qualifyName name session)).isNone &&
      !earlier.any fun q => q.ownCursor session = some (qualifyName name session)
  | .cursorFilter name => (splitQualified (qualifyName name session)).1 ≠ session.text
  | _ => false

/-- Some qualifier refuses the filter, after those of `earlier`. -/
def refuses (session : SessionName) (s : BookmarkStore) : List Qualifier → List Qualifier → Bool
  | _, [] => false
  | earlier, q :: qs => q.refused session s earlier || refuses session s (earlier ++ [q]) qs

theorem refuses_append (session : SessionName) (s : BookmarkStore) : ∀ (pre earlier post : List Qualifier),
    refuses session s earlier (pre ++ post) =
      (refuses session s earlier pre || refuses session s (earlier ++ pre) post)
  | [], earlier, post => by simp [refuses]
  | q :: pre, earlier, post => by
    rw [List.cons_append, refuses, refuses_append session s pre, refuses, Bool.or_assoc, List.append_assoc]
    rfl

/-- What opens a cursor does not refuse. -/
theorem Qualifier.refused_of_opens {session : SessionName} {s : BookmarkStore} {q : Qualifier}
    (h : q.opens session s = true) (earlier : List Qualifier) : q.refused session s earlier = false := by
  cases q with
  | cursorFilter name =>
    by_cases hown : (splitQualified (qualifyName name session)).1 = session.text
    · simp [refused, hown]
    · simp [opens, ownCursor, hown] at h
  | _ => simp [opens, ownCursor] at h

/-- No cursor is opened before a refusal: where a cursor would be, the filter
was refused already or is not refused any more. -/
def RefusedFirst (session : SessionName) (s : BookmarkStore) (qs : List Qualifier) : Prop :=
  ∀ pre q post, qs = pre ++ q :: post → q.opens session s = true →
    refuses session s [] pre = true ∨ refuses session s (pre ++ [q]) post = false

/-! ### The walk -/

section walk

variable {session : SessionName} {lateCounter : ℕ} {now : ℤ} {s t : BookmarkState} {earlier : List Qualifier}

/-- From `s`, the qualifiers `earlier` were walked and `t` is left: the
cursors of the session among them exist, and where all did, nothing moved. -/
structure Walked (session : SessionName) (s : BookmarkState) (earlier : List Qualifier) (t : BookmarkState) : Prop where
  keys : ∀ key, (t.store.get? key).isSome = true ↔
    (s.store.get? key).isSome = true ∨ ∃ q ∈ earlier, q.ownCursor session = some key
  same : (∀ q ∈ earlier, q.opens session s.store = false) → t = s

theorem walked_nil (session : SessionName) (s : BookmarkState) : Walked session s [] s :=
  ⟨fun key => by simp, fun _ => rfl⟩

/-- A cursor that was opened shows. -/
theorem Walked.ne (h : Walked session s earlier t) {q : Qualifier} (hq : q ∈ earlier)
    (hopens : q.opens session s.store = true) : t ≠ s := by
  rintro rfl
  cases hkey : q.ownCursor session with
  | none => simp [Qualifier.opens, hkey] at hopens
  | some key =>
    have hnone : t.store.get? key = none := by simpa [Qualifier.opens, hkey] using hopens
    have hsome := (h.keys key).mpr (.inr ⟨q, hq, hkey⟩)
    rw [hnone] at hsome
    exact absurd hsome (by simp)

/-- A qualifier that is no cursor of the session moves nothing. -/
theorem Walked.pass (h : Walked session s earlier t) {q : Qualifier} (hq : q.ownCursor session = none) :
    Walked session s (earlier ++ [q]) t where
  keys key := by
    rw [h.keys key]
    simp [hq]
  same hall := h.same fun q hq => hall q (List.mem_append_left _ hq)

theorem isSome_cursorReadAndAdvanceAt (t : BookmarkState) (session : SessionName) (name : String) (lateCounter : ℕ)
    (now : ℤ) (key : String) :
    ((t.cursorReadAndAdvanceAt session name lateCounter now).1.store.get? key).isSome = true ↔
      (t.store.get? key).isSome = true ∨ qualify session name = key := by
  unfold BookmarkState.cursorReadAndAdvanceAt BookmarkStore.cursorReadAndAdvanceAt
  cases hget : t.store.get? (qualify session name) with
  | some b =>
    refine ⟨.inl, fun h => h.elim id fun hkey => ?_⟩
    rw [← hkey, hget]
    rfl
  | none =>
    simp only [BookmarkStore.get?_put]
    by_cases hkey : key = qualify session name
    · simp [hkey]
    · have hne : ¬ qualify session name = key := fun h => hkey h.symm
      simp [hkey, hne]

/-- A cursor that exists is read and nothing moves. -/
theorem cursorReadAndAdvanceAt_of_isSome {name : String} (h : (t.store.get? (qualify session name)).isSome = true) :
    (t.cursorReadAndAdvanceAt session name lateCounter now).1 = t := by
  obtain ⟨b, hb⟩ := Option.isSome_iff_exists.mp h
  unfold BookmarkState.cursorReadAndAdvanceAt BookmarkStore.cursorReadAndAdvanceAt
  simp only [hb]

/-- A cursor of the session is there afterwards. -/
theorem Walked.cursor (h : Walked session s earlier t) {name : String}
    (hown : (splitQualified (qualifyName name session)).1 = session.text) :
    Walked session s (earlier ++ [.cursorFilter name])
      (t.cursorReadAndAdvanceAt session (splitQualified (qualifyName name session)).2 lateCounter now).1 := by
  have hcursor : (Qualifier.cursorFilter name).ownCursor session = some (qualifyName name session) := if_pos hown
  have hkey : qualify session (splitQualified (qualifyName name session)).2 = qualifyName name session := by
    have hsplit := splitQualified_eq (mem_qualifyName name session)
    rw [hown] at hsplit
    exact hsplit.symm
  refine ⟨fun key => ?_, fun hall => ?_⟩
  · rw [isSome_cursorReadAndAdvanceAt, hkey, h.keys key, or_assoc]
    simp [or_and_right, exists_or, hcursor]
  · have hts : t = s := h.same fun q hq => hall q (List.mem_append_left _ hq)
    have hheld := hall (.cursorFilter name) (List.mem_append_right _ List.mem_cons_self)
    rw [Qualifier.opens, hcursor, Option.any_some] at hheld
    rw [cursorReadAndAdvanceAt_of_isSome, hts]
    rw [hkey, hts]
    simpa using hheld

/-- How a walk of `qs` after `earlier` ends: it walked a part of them without a
refusal, and that part is all of them or the next one refuses. -/
def Ends (session : SessionName) (s : BookmarkState) (earlier qs : List Qualifier)
    (r : BookmarkState × Except BookmarkResolutionError ResolvedFilter) : Prop :=
  ∃ pre post, qs = pre ++ post ∧ refuses session s.store earlier pre = false ∧
    Walked session s (earlier ++ pre) r.1 ∧
    ((post = [] ∧ ∃ f, r.2 = .ok f) ∨
      ∃ q rest, post = q :: rest ∧ q.refused session s.store (earlier ++ pre) = true ∧ ∃ e, r.2 = .error e)

variable {q : Qualifier} {qs : List Qualifier} {r : BookmarkState × Except BookmarkResolutionError ResolvedFilter}

/-- A walk goes on past a qualifier that does not refuse. -/
theorem Ends.cons (hpass : q.refused session s.store earlier = false) (h : Ends session s (earlier ++ [q]) qs r) :
    Ends session s earlier (q :: qs) r := by
  obtain ⟨pre, post, hqs, hno, hwalked, hend⟩ := h
  rw [List.append_assoc] at hwalked hend
  refine ⟨q :: pre, post, by rw [hqs, List.cons_append], ?_, hwalked, hend⟩
  rw [refuses, hpass, hno]
  rfl

/-- A walk ends at a qualifier that refuses. -/
theorem Ends.refused (hwalked : Walked session s earlier r.1) (hrefused : q.refused session s.store earlier = true)
    (herr : ∃ e, r.2 = .error e) : Ends session s earlier (q :: qs) r :=
  ⟨[], q :: qs, rfl, rfl, by rwa [List.append_nil], .inr ⟨q, qs, rfl, by rwa [List.append_nil], herr⟩⟩

theorem resolveQualifiers_ends : ∀ (qs : List Qualifier) {earlier : List Qualifier} {t : BookmarkState}
    {out : List Qualifier} {commit : Option CursorCommit}, Walked session s earlier t →
    Ends session s earlier qs (BookmarkState.resolveQualifiers session lateCounter now qs t out commit)
  | [], earlier, t, out, commit, h => ⟨[], [], rfl, rfl, by rwa [List.append_nil], .inl ⟨rfl, _, rfl⟩⟩
  | .bookmarkFilter op name :: qs, earlier, t, out, commit, h => by
    have hfound := h.keys (qualifyName name session)
    unfold BookmarkState.resolveQualifiers
    cases hget : t.store.get? (qualifyName name session) with
    | none =>
      refine .refused h ?_ ⟨_, rfl⟩
      rw [hget] at hfound
      simp only [Option.isSome_none, Bool.false_eq_true, false_iff, not_or, not_exists, not_and] at hfound
      simp only [Qualifier.refused, Bool.and_eq_true, Bool.not_eq_true', List.any_eq_false, decide_eq_true_eq]
      exact ⟨by simpa using hfound.1, hfound.2⟩
    | some b =>
      refine .cons ?_ (resolveQualifiers_ends qs (h.pass rfl))
      rw [hget] at hfound
      rcases hfound.mp rfl with hheld | ⟨q, hq, hkey⟩
      · simp [Qualifier.refused, Option.isSome_iff_ne_none.mp hheld]
      · simp only [Qualifier.refused, Bool.and_eq_false_iff, Bool.not_eq_false', List.any_eq_true, decide_eq_true_eq]
        exact .inr ⟨q, hq, hkey⟩
  | .cursorFilter name :: qs, earlier, t, out, commit, h => by
    unfold BookmarkState.resolveQualifiers
    by_cases hown : (splitQualified (qualifyName name session)).1 = session.text
    · simp only [hown, ne_eq, not_true_eq_false, ↓reduceIte]
      exact .cons (by simp [Qualifier.refused, hown]) (resolveQualifiers_ends qs (h.cursor hown))
    · simp only [ne_eq, hown, not_false_eq_true, ↓reduceIte]
      exact .refused h (by simp [Qualifier.refused, hown]) ⟨_, rfl⟩
  | .barePattern _ :: qs, earlier, t, out, commit, h => .cons rfl (resolveQualifiers_ends qs (h.pass rfl))
  | .selectorPattern _ _ :: qs, earlier, t, out, commit, h => .cons rfl (resolveQualifiers_ends qs (h.pass rfl))
  | .levelFilter _ _ :: qs, earlier, t, out, commit, h => .cons rfl (resolveQualifiers_ends qs (h.pass rfl))
  | .durationFilter _ _ :: qs, earlier, t, out, commit, h => .cons rfl (resolveQualifiers_ends qs (h.pass rfl))
  | .seqFilter _ _ :: qs, earlier, t, out, commit, h => .cons rfl (resolveQualifiers_ends qs (h.pass rfl))
  | .cursorSeq _ :: qs, earlier, t, out, commit, h => .cons rfl (resolveQualifiers_ends qs (h.pass rfl))

/-- **What a resolution does**: it walks the filter's qualifiers, to the end or
to the first that refuses. -/
theorem resolveBookmarksAt_ends (f : ParsedFilter) (s : BookmarkState) (session : SessionName) (lateCounter : ℕ)
    (now : ℤ) : Ends session s [] f.listed (s.resolveBookmarksAt f session lateCounter now) := by
  cases f with
  | qualifiers qs => exact resolveQualifiers_ends qs (walked_nil session s)
  | all => exact ⟨[], [], rfl, rfl, walked_nil session s, .inl ⟨rfl, _, rfl⟩⟩
  | none => exact ⟨[], [], rfl, rfl, walked_nil session s, .inl ⟨rfl, _, rfl⟩⟩

end walk

/-! ### The record beside the store -/

theorem cursorReadAndAdvanceAt_store (s : BookmarkState) (session : SessionName) (name : String) (lateCounter : ℕ)
    (now : ℤ) : ((s.cursorReadAndAdvanceAt session name lateCounter now).1.store,
      (s.cursorReadAndAdvanceAt session name lateCounter now).2) =
      s.store.cursorReadAndAdvanceAt session name lateCounter now := by
  unfold BookmarkState.cursorReadAndAdvanceAt
  cases s.store.get? (qualify session name) <;> rfl

theorem resolveQualifiers_store (session : SessionName) (lateCounter : ℕ) (now : ℤ) : ∀ (qs : List Qualifier)
    (s : BookmarkState) (out : List Qualifier) (commit : Option CursorCommit),
    ((s.resolveQualifiers session lateCounter now qs out commit).1.store,
      (s.resolveQualifiers session lateCounter now qs out commit).2) =
      resolveQualifiers session lateCounter now qs s.store out commit
  | [], s, out, commit => rfl
  | .bookmarkFilter op name :: qs, s, out, commit => by
    unfold BookmarkState.resolveQualifiers resolveQualifiers
    cases s.store.get? (qualifyName name session) with
    | none => rfl
    | some b => exact resolveQualifiers_store session lateCounter now qs s _ commit
  | .cursorFilter name :: qs, s, out, commit => by
    unfold BookmarkState.resolveQualifiers resolveQualifiers
    by_cases hown : (splitQualified (qualifyName name session)).1 = session.text
    · simp only [hown, ne_eq, not_true_eq_false, ↓reduceIte, ← cursorReadAndAdvanceAt_store]
      exact resolveQualifiers_store session lateCounter now qs _ _ _
    · simp only [hown, ne_eq, not_false_eq_true, ↓reduceIte]
  | .barePattern _ :: qs, s, out, commit => resolveQualifiers_store session lateCounter now qs s _ commit
  | .selectorPattern _ _ :: qs, s, out, commit => resolveQualifiers_store session lateCounter now qs s _ commit
  | .levelFilter _ _ :: qs, s, out, commit => resolveQualifiers_store session lateCounter now qs s _ commit
  | .durationFilter _ _ :: qs, s, out, commit => resolveQualifiers_store session lateCounter now qs s _ commit
  | .seqFilter _ _ :: qs, s, out, commit => resolveQualifiers_store session lateCounter now qs s _ commit
  | .cursorSeq _ :: qs, s, out, commit => resolveQualifiers_store session lateCounter now qs s _ commit

/-- **Without the record it is the resolver's own walk.** -/
theorem resolveBookmarksAt_store (f : ParsedFilter) (s : BookmarkState) (session : SessionName) (lateCounter : ℕ)
    (now : ℤ) : ((s.resolveBookmarksAt f session lateCounter now).1.store,
      (s.resolveBookmarksAt f session lateCounter now).2) = resolveBookmarksAt f s.store session lateCounter now := by
  cases f with
  | qualifiers qs => exact resolveQualifiers_store session lateCounter now qs s [] none
  | all => rfl
  | none => rfl

/-! ### A refused filter -/

/-- **A refused filter leaves the bookmarks and the record of evicted cursors
alone exactly when it is refused before the first cursor it would create.** -/
theorem refused_leaves_bookmarks_iff (f : ParsedFilter) (s : BookmarkState) (session : SessionName) (lateCounter : ℕ)
    (now : ℤ) :
    ((∃ e, (s.resolveBookmarksAt f session lateCounter now).2 = .error e) →
      (s.resolveBookmarksAt f session lateCounter now).1 = s) ↔ RefusedFirst session s.store f.listed := by
  obtain ⟨pre, post, hqs, hno, hwalked, hend⟩ := resolveBookmarksAt_ends f s session lateCounter now
  rw [List.nil_append] at hwalked hend
  set r := s.resolveBookmarksAt f session lateCounter now
  rcases hend with ⟨rfl, f', hok⟩ | ⟨q, rest, rfl, hrefused, herr⟩
  · -- resolved: no part of the filter refuses
    refine iff_of_true (fun ⟨e, he⟩ => absurd (he.symm.trans hok) (by simp)) fun a q b hab _ => .inr ?_
    have hnone : refuses session s.store [] (a ++ [q] ++ b) = false := by
      rw [List.append_assoc, List.singleton_append, ← hab, hqs, List.append_nil]
      exact hno
    rw [refuses_append, Bool.or_eq_false_iff] at hnone
    exact hnone.2
  · constructor
    · intro hsame a q' b hab hopens
      -- the qualifier that would open a cursor was walked, is the refused one, or comes after it
      have hnot : q' ∉ pre := fun hin => hwalked.ne hin hopens (hsame herr)
      have hne : q' ≠ q := by
        rintro rfl
        rw [Qualifier.refused_of_opens hopens] at hrefused
        exact absurd hrefused (by simp)
      rw [hqs] at hab
      rcases List.append_eq_append_iff.mp hab with ⟨c, rfl, hc⟩ | ⟨c, rfl, hc⟩
      · cases c with
        | nil => exact absurd (List.cons.inj hc).1.symm hne
        | cons x c =>
          obtain rfl : q = x := (List.cons.inj hc).1
          refine .inl ?_
          rw [refuses_append, refuses, List.nil_append, hrefused]
          simp
      · cases c with
        | nil => exact absurd (List.cons.inj hc).1 hne
        | cons x c =>
          obtain rfl : q' = x := (List.cons.inj hc).1
          exact absurd (List.mem_append_right _ List.mem_cons_self) hnot
    · intro hfirst _
      refine hwalked.same fun q' hq' => ?_
      by_contra hopens
      obtain ⟨a, b, rfl⟩ := List.append_of_mem hq'
      rcases hfirst a q' (b ++ q :: rest) (by rw [hqs]; simp) (by simpa using hopens) with hbefore | hafter
      · rw [refuses_append, hbefore] at hno
        simp at hno
      · have hlast : refuses session s.store (a ++ [q']) (b ++ q :: rest) = true := by
          rw [refuses_append, refuses, List.append_assoc, List.singleton_append, hrefused]
          simp
        rw [hafter] at hlast
        exact absurd hlast (by simp)

/-- A cursor and a bookmark, neither of which exists: the cursor is left
behind. -/
theorem refused_filter_creates_cursor :
    let s : BookmarkState := ⟨.new, ∅⟩
    let session : SessionName := ⟨"s", by decide⟩
    let f := ParsedFilter.qualifiers [.cursorFilter "new", .bookmarkFilter .gte "missing"]
    (s.resolveBookmarksAt f session 0 0).2 = .error (.notFound "s/missing") ∧
      (s.resolveBookmarksAt f session 0 0).1 ≠ s := by
  intro s session f
  refine ⟨by decide, fun h => ?_⟩
  have hkey : ((s.resolveBookmarksAt f session 0 0).1.store.get? "s/new").isSome = true := by decide
  rw [h] at hkey
  exact absurd hkey (by decide)

end Logmon
