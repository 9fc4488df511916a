/-
# A cursor deleted under a read

A read takes a handle at its begin and commits it at its end; in between the
cursor may be deleted: removed by name, cleared with its session, or moved by
a rename of its session. The commit cannot tell a deletion from a sweep: it
puts the cursor back whenever the seq moved, that is, whenever the caller
kept a record above the position the read began from.

Key definitions: `Deletion`, `Event`, `readCycle`.
Key theorems: `deleted_stays_deleted_iff`.
-/
import Logmon.Store.Bookmarks
import Logmon.Store.Cursor

namespace Logmon

open Lib InMemoryStore

/-- An explicit deletion of a cursor. -/
inductive Deletion
  | remove
  | clearSession
  | renameSession (new : SessionName)

/-- What may happen between a read's begin and its commit. -/
inductive Event
  | ring (op : RingOp)
  | delete (d : Deletion)

section deletion

variable (session : SessionName) (name : String)

/-- A deletion of the cursor `name` of `session`. -/
def Deletion.apply (s : BookmarkStore) : Deletion → BookmarkStore
  | .remove => match s.remove (qualify session name) with
    | .ok s' => s'
    | .error _ => s
  | .clearSession => (s.clearSession session).1
  | .renameSession new => (s.renameSession session new).1

/-- A rename to the session's own name moves nothing. -/
def Deletion.Real : Deletion → Prop
  | .renameSession new => session ≠ new
  | _ => True

def Event.apply (x : InMemoryStore × BookmarkStore) : Event → InMemoryStore × BookmarkStore
  | .ring op => (x.1.apply op, x.2)
  | .delete d => (x.1, d.apply session name x.2)

/-- What a read cycle leaves: the read, the handle and the bookmarks. -/
structure Cycle where
  handle : CursorCommit
  read : CursorRead
  store : BookmarkStore

/-- Begin, `before`, the ring read, `after`, and the commit of the first
`kept` records. -/
def readCycle (E : TextEnv) (lateCounter : ℕ) (now : ℤ) (before after : List Event) (count kept : ℕ)
    (filter : Option ParsedFilter) (r : InMemoryStore) (s : BookmarkStore) : Cycle :=
  let (s1, c) := s.cursorReadAndAdvanceAt session name lateCounter now
  let (r2, s2) := before.foldl (Event.apply session name) (r, s1)
  let read := cursorRead E r2 count (filterAt filter c.lowerBound) c.cursorPos
  let (_, s3) := after.foldl (Event.apply session name) (r2, s2)
  let adv := read.advanceFor kept
  ⟨c, read, s3.commit c adv.seq adv.lateMark now⟩

variable {session name}

theorem Deletion.apply_gone {s : BookmarkStore} {d : Deletion} (hd : d.Real session) :
    (d.apply session name s).get? (qualify session name) = none := by
  cases d with
  | remove =>
    unfold Deletion.apply
    cases hr : s.remove (qualify session name) with
    | ok s' => exact BookmarkStore.get?_remove hr
    | error err =>
      simp only
      unfold BookmarkStore.remove at hr
      split at hr
      · assumption
      · simp at hr
  | clearSession => exact BookmarkStore.get?_clearSession session name
  | renameSession new => exact BookmarkStore.get?_renameSession hd name

/-- What is gone stays gone under deletions. -/
theorem Deletion.apply_none {s : BookmarkStore} (h : s.get? (qualify session name) = none) (d : Deletion) :
    (d.apply session name s).get? (qualify session name) = none := by
  by_cases hd : d.Real session
  · exact Deletion.apply_gone hd
  · cases d with
    | remove => exact absurd trivial hd
    | clearSession => exact absurd trivial hd
    | renameSession new =>
      have heq : session = new := not_not.mp hd
      simpa [Deletion.apply, BookmarkStore.renameSession, heq] using h

theorem events_gone : ∀ {es : List Event} {x : InMemoryStore × BookmarkStore},
    (x.2.get? (qualify session name) = none ∨ ∃ d, Event.delete d ∈ es ∧ d.Real session) →
      (es.foldl (Event.apply session name) x).2.get? (qualify session name) = none
  | [], x, h => h.resolve_right fun ⟨d, hd, _⟩ => absurd hd List.not_mem_nil
  | e :: es, x, h => by
    rw [List.foldl_cons]
    refine events_gone ?_
    rcases h with h | ⟨d, hd, hreal⟩
    · cases e with
      | ring op => exact Or.inl h
      | delete d => exact Or.inl (Deletion.apply_none h d)
    · rcases List.mem_cons.mp hd with rfl | hd
      · exact Or.inl (Deletion.apply_gone hreal)
      · exact Or.inr ⟨d, hd, hreal⟩

theorem events_wf : ∀ {es : List Event} {x : InMemoryStore × BookmarkStore}, x.1.WF →
    (es.foldl (Event.apply session name) x).1.WF
  | [], _, h => h
  | e :: es, x, h => by
    rw [List.foldl_cons]
    refine events_wf ?_
    cases e with
    | ring op => exact h.apply op
    | delete d => exact h

end deletion

/-- **A deleted cursor stays deleted exactly when the read kept nothing above
its position.** -/
theorem deleted_stays_deleted_iff (E : TextEnv) (cap : ℕ) (hcap : cap ≤ u64Max) (ops : List RingOp)
    (session : SessionName) (name : String) (s : BookmarkStore) (lateCounter : ℕ) (now : ℤ)
    (before after : List Event) (count kept : ℕ) (filter : Option ParsedFilter)
    (hdel : ∃ d, Event.delete d ∈ before ++ after ∧ d.Real session) :
    let c := readCycle session name E lateCounter now before after count kept filter ((new cap hcap).run ops) s
    c.store.get? (qualify session name) = none ↔ ∀ e ∈ c.read.keptEntries kept, e.seq ≤ c.handle.lowerBound := by
  intro c
  set s1 := (s.cursorReadAndAdvanceAt session name lateCounter now).1
  set x2 := before.foldl (Event.apply session name) ((new cap hcap).run ops, s1) with hx2
  set x3 := after.foldl (Event.apply session name) x2 with hx3
  have hq : c.handle.qualifiedName = qualify session name :=
    BookmarkStore.cursorReadAndAdvanceAt_qualifiedName session name lateCounter now
  have hwf : x2.1.WF := events_wf ((wf_new cap hcap).run)
  have hgone : x3.2.get? c.handle.qualifiedName = none := by
    rw [hq]
    obtain ⟨d, hd, hreal⟩ := hdel
    rcases List.mem_append.mp hd with hd | hd
    · exact events_gone (Or.inl (events_gone (Or.inr ⟨d, hd, hreal⟩)))
    · exact events_gone (Or.inr ⟨d, hd, hreal⟩)
  have hcommit : c.store = x3.2.commit c.handle (c.read.advanceFor kept).seq (c.read.advanceFor kept).lateMark now :=
    rfl
  rw [hcommit, ← hq, BookmarkStore.get?_commit_of_none hgone]
  exact hwf.posFor_seq_eq_iff E count (filterAt filter c.handle.lowerBound) c.handle.cursorPos kept

/-- A cursor of session `s`. -/
def sampleSession : SessionName := ⟨"s", noSlash_s⟩

/-- Removed under a read that kept no record: gone. -/
theorem deleted_stays_deleted_empty :
    (∃ d, Event.delete d ∈ [Event.delete .remove] ++ [] ∧ d.Real sampleSession) ∧
      (readCycle sampleSession "c" .ascii 0 0 [.delete .remove] [] 10 0 none
        ((new 2 (by decide)).run [.append (.blank 5)]) .new).store.get? (qualify sampleSession "c") = none :=
  ⟨⟨.remove, by simp, trivial⟩,
    (deleted_stays_deleted_iff .ascii 2 (by decide) [.append (.blank 5)] sampleSession "c" .new 0 0
      [.delete .remove] [] 10 0 none ⟨.remove, by simp, trivial⟩).mpr (by decide)⟩

/-- Removed under a read that kept the one record held: back, at its seq. -/
theorem deleted_cursor_returns :
    ((readCycle sampleSession "c" .ascii 0 0 [] [.delete .remove] 10 1 none
      ((new 2 (by decide)).run [.append (.blank 5)]) .new).store.get? (qualify sampleSession "c")).map
        Bookmark.seq = some 5 := by
  decide

end Logmon
