/-
# Resolving the bookmarks of a filter

`filter/bookmark_resolver.rs`: every bookmark a filter names becomes a seq
bound, and its cursor the bound of the cursor's position, with the handle a
read commits. A cursor that does not exist is created on the way, also when a
later qualifier of the filter fails to resolve.

Key definitions: `qualifyName`, `splitQualified`, `resolveBookmarksAt`.
-/
import Logmon.Store.Bookmarks

namespace Logmon

open Lib

inductive BookmarkResolutionError
  | notFound (qualified : String)
  | crossSessionCursorAdvance (qualified : String)
  deriving DecidableEq

structure ResolvedFilter where
  filter : ParsedFilter
  cursorCommit : Option CursorCommit
  deriving DecidableEq

/-- `qualify`: a bare name in the current session, a qualified one as it is. -/
def qualifyName (name : String) (currentSession : SessionName) : String :=
  if '/' ∈ name.toList then name else qualify currentSession name

/-- `split_once('/')`. -/
def splitQualified (qualified : String) : String × String :=
  (String.ofList (qualified.toList.takeWhile (· ≠ '/')),
   String.ofList ((qualified.toList.dropWhile (· ≠ '/')).drop 1))

def BookmarkOp.seqOp : BookmarkOp → SeqOp
  | .gte => .gt
  | .lte => .lt

/-- The loop over the qualifiers. -/
def resolveQualifiers (session : SessionName) (lateCounter : ℕ) (now : ℤ) :
    List Qualifier → BookmarkStore → List Qualifier → Option CursorCommit →
      BookmarkStore × Except BookmarkResolutionError ResolvedFilter
  | [], s, out, commit => (s, .ok ⟨.qualifiers out, commit⟩)
  | .bookmarkFilter op name :: qs, s, out, commit =>
    match s.get? (qualifyName name session) with
    | none => (s, .error (.notFound (qualifyName name session)))
    | some b => resolveQualifiers session lateCounter now qs s (out ++ [.seqFilter op.seqOp b.seq]) commit
  | .cursorFilter name :: qs, s, out, _ =>
    let (targetSession, targetName) := splitQualified (qualifyName name session)
    if targetSession ≠ session.text then (s, .error (.crossSessionCursorAdvance (qualifyName name session)))
    else
      let (s, commit) := s.cursorReadAndAdvanceAt session targetName lateCounter now
      resolveQualifiers session lateCounter now qs s (out ++ [.cursorSeq commit.lowerBound]) (some commit)
  | q :: qs, s, out, commit => resolveQualifiers session lateCounter now qs s (out ++ [q]) commit

/-- `resolve_bookmarks_at`: the store it leaves, and the filter. -/
def resolveBookmarksAt (filter : ParsedFilter) (s : BookmarkStore) (currentSession : SessionName) (lateCounter : ℕ)
    (now : ℤ) : BookmarkStore × Except BookmarkResolutionError ResolvedFilter :=
  match filter with
  | .qualifiers qs => resolveQualifiers currentSession lateCounter now qs s [] none
  | filter => (s, .ok ⟨filter, none⟩)

/-- The loop leaves the bound of the cursor whose handle it returns. -/
theorem resolveQualifiers_commit {session : SessionName} {lateCounter : ℕ} {now : ℤ} {r : ResolvedFilter} :
    ∀ (qs : List Qualifier) {s s' : BookmarkStore} {out : List Qualifier} {commit : Option CursorCommit},
    (∀ c ∈ commit, Qualifier.cursorSeq c.lowerBound ∈ out) →
    resolveQualifiers session lateCounter now qs s out commit = (s', .ok r) →
    ∃ qs', r.filter = .qualifiers qs' ∧ ∀ c ∈ r.cursorCommit, Qualifier.cursorSeq c.lowerBound ∈ qs'
  | [], s, s', out, commit, hout, h => by
    simp only [resolveQualifiers, Prod.mk.injEq, Except.ok.injEq] at h
    obtain ⟨-, rfl⟩ := h
    exact ⟨out, rfl, hout⟩
  | q :: qs, s, s', out, commit, hout, h => by
    have hmore : ∀ q', ∀ c ∈ commit, Qualifier.cursorSeq c.lowerBound ∈ out ++ [q'] :=
      fun q' c hc => List.mem_append_left _ (hout c hc)
    unfold resolveQualifiers at h
    split at h
    · rename_i hnil
      simp at hnil
    · rename_i hcons
      split at h
      · simp at h
      · obtain ⟨rfl, rfl⟩ := List.cons.inj hcons
        exact resolveQualifiers_commit _ (hmore _) h
    · rename_i hcons
      obtain ⟨rfl, rfl⟩ := List.cons.inj hcons
      dsimp only at h
      split at h
      · simp at h
      · refine resolveQualifiers_commit _ (fun c hc => ?_) h
        rw [Option.mem_some_iff] at hc
        rw [hc]
        exact List.mem_append_right _ List.mem_cons_self
    · rename_i hcons
      obtain ⟨rfl, rfl⟩ := List.cons.inj hcons
      exact resolveQualifiers_commit _ (hmore _) h

/-- **A resolved cursor bounds its filter.** -/
theorem resolveBookmarksAt_commit {f : ParsedFilter} {s s' : BookmarkStore} {session : SessionName} {lateCounter : ℕ}
    {now : ℤ} {r : ResolvedFilter} (h : resolveBookmarksAt f s session lateCounter now = (s', .ok r)) :
    ∀ c ∈ r.cursorCommit, ∃ qs, r.filter = .qualifiers qs ∧ Qualifier.cursorSeq c.lowerBound ∈ qs := by
  intro c hc
  unfold resolveBookmarksAt at h
  split at h
  · obtain ⟨qs', hqs, hall⟩ := resolveQualifiers_commit _ (by simp) h
    exact ⟨qs', hqs, hall c hc⟩
  · simp only [Prod.mk.injEq, Except.ok.injEq] at h
    obtain ⟨-, rfl⟩ := h
    simp at hc

end Logmon
