/-
# Bookmarks and cursors

`store/bookmarks.rs`: the bookmarks of a domain by qualified name, and the
cursor handle a read takes at its begin and commits at its end. A session's
name has no `/` (`session::is_valid_name`), so a key says its session and its
name (`qualify_inj`). A bookmark and a handle bear their qualified name beside
its parts; who makes one shows that it is theirs (`Bookmark.named`), and who
stores one that it is the key (`BookmarkStore.keyed`). The set of recently
evicted names only picks a log line and is left out.

Key definitions: `Bookmark`, `BookmarkStore`, `CursorCommit`,
`BookmarkStore.addAt`, `BookmarkStore.sweep`, `BookmarkStore.renameSession`,
`BookmarkStore.cursorReadAndAdvanceAt`, `BookmarkStore.commit`.
Key theorems: `get?_commit`, `get?_remove`, `get?_clearSession`,
`get?_renameSession`.
-/
import Logmon.Daemon.Identity
import Logmon.Lib.FMap
import Logmon.Store.Read

namespace Logmon

open Lib

/-- `format!("{session}/{name}")`. -/
def qualify (session : SessionName) (name : String) : String := session.text ++ "/" ++ name

/-- A key says its session and its name. -/
theorem qualify_inj {s t : SessionName} {m n : String} (h : qualify s m = qualify t n) : s = t ∧ m = n := by
  have key : ∀ {l k a b : List Char}, '/' ∉ l → '/' ∉ k → l ++ '/' :: a = k ++ '/' :: b → l = k ∧ a = b := by
    intro l
    induction l with
    | nil =>
      intro k a b _ hk h
      cases k with
      | nil => simpa using h
      | cons c k =>
        simp only [List.nil_append, List.cons_append, List.cons.injEq] at h
        exact absurd List.mem_cons_self (h.1 ▸ hk)
    | cons c l ih =>
      intro k a b hl hk h
      cases k with
      | nil =>
        simp only [List.nil_append, List.cons_append, List.cons.injEq] at h
        exact absurd List.mem_cons_self (h.1 ▸ hl)
      | cons d k =>
        simp only [List.cons_append, List.cons.injEq] at h
        obtain ⟨h1, h2⟩ := ih (fun hin => hl (List.mem_cons_of_mem _ hin))
          (fun hin => hk (List.mem_cons_of_mem _ hin)) h.2
        exact ⟨by rw [h.1, h1], h2⟩
  have hlist : s.text.toList ++ '/' :: m.toList = t.text.toList ++ '/' :: n.toList := by
    have := congrArg String.toList h
    simpa [qualify, String.toList_append] using this
  obtain ⟨h1, h2⟩ := key s.noSlash t.noSlash hlist
  refine ⟨?_, String.toList_injective h2⟩
  cases s
  cases t
  simpa using String.toList_injective h1

/-- A named position in the seq axis; read as a cursor, also a late mark and
the position it was created at. -/
structure Bookmark where
  qualifiedName : String
  name : String
  session : SessionName
  seq : ℕ
  createdAt : ℤ
  description : Option String
  lateMark : ℕ
  floor : ℕ
  named : qualifiedName = qualify session name
  deriving DecidableEq

namespace Bookmark

/-- The bookmark as a cursor's position. -/
def pos (b : Bookmark) : CursorPos := ⟨b.seq, b.lateMark, b.floor⟩

end Bookmark

inductive BookmarkError
  | invalidName (name : String)
  | alreadyExists (qualifiedName : String)
  | notFound (qualifiedName : String)
  deriving DecidableEq

/-- The handle of a read: what it captured at its begin. -/
structure CursorCommit where
  qualifiedName : String
  session : SessionName
  name : String
  lowerBound : ℕ
  lateMark : ℕ
  floor : ℕ
  named : qualifiedName = qualify session name
  deriving DecidableEq

namespace CursorCommit

/-- `cursor_pos`: the cursor's position as its read began. -/
def cursorPos (c : CursorCommit) : CursorPos := ⟨c.lowerBound, c.lateMark, c.floor⟩

end CursorCommit

def isValidBookmarkName (name : String) : Bool :=
  if name.isEmpty || 64 < name.utf8ByteSize then false
  else name.toList.all fun c => c.isAlphanum || c = '-' || c = '_'

/-- Both stores have lost records of the window the bookmark opens. -/
def shouldEvict (bookmarkSeq logLostBelow spanLostBelow : ℕ) : Bool :=
  let windowStart := satAdd bookmarkSeq 1
  (evictedBelow windowStart logLostBelow).isSome && (evictedBelow windowStart spanLostBelow).isSome

/-- The bookmarks, each under its own name. -/
structure BookmarkStore where
  bookmarks : FMap String Bookmark
  keyed : ∀ k b, bookmarks.get? k = some b → k = b.qualifiedName

namespace BookmarkStore

def new : BookmarkStore := ⟨∅, fun k b h => by simp at h⟩

def get? (s : BookmarkStore) (qualifiedName : String) : Option Bookmark := s.bookmarks.get? qualifiedName

/-- Insert a bookmark under its name. -/
def put (s : BookmarkStore) (b : Bookmark) : BookmarkStore where
  bookmarks := s.bookmarks.insert b.qualifiedName b
  keyed k b' h := by
    rw [FMap.get?_insert] at h
    split_ifs at h with hk
    · rw [hk, Option.some.inj h]
    · exact s.keyed k b' h

/-- Keep the bookmarks `p` accepts. -/
def retain (s : BookmarkStore) (p : String → Bookmark → Bool) : BookmarkStore where
  bookmarks := s.bookmarks.retain p
  keyed k b h := by
    rw [FMap.get?_retain, Option.filter_eq_some_iff] at h
    exact s.keyed k b h.1

def eraseKey (s : BookmarkStore) (qualifiedName : String) : BookmarkStore := s.retain fun k _ => k ≠ qualifiedName

/-- `add_at`: the bookmark, whether it replaced one, and the store. -/
def addAt (s : BookmarkStore) (session : SessionName) (name : String) (seq lateMark : ℕ)
    (description : Option String) (replace : Bool) (now : ℤ) :
    Except BookmarkError (Bookmark × Bool × BookmarkStore) :=
  if !isValidBookmarkName name then .error (.invalidName name)
  else
    let b : Bookmark := ⟨qualify session name, name, session, seq, now, description, lateMark, seq, rfl⟩
    let existed := (s.get? b.qualifiedName).isSome
    if existed && !replace then .error (.alreadyExists b.qualifiedName) else .ok (b, existed, s.put b)

def remove (s : BookmarkStore) (qualifiedName : String) : Except BookmarkError BookmarkStore :=
  match s.get? qualifiedName with
  | none => .error (.notFound qualifiedName)
  | some _ => .ok (s.eraseKey qualifiedName)

def sweep (s : BookmarkStore) (logLostBelow spanLostBelow : ℕ) : BookmarkStore :=
  s.retain fun _ b => !shouldEvict b.seq logLostBelow spanLostBelow

/-- `clear_session`, and how many it removed. -/
def clearSession (s : BookmarkStore) (session : SessionName) : BookmarkStore × ℕ :=
  let s' := s.retain fun _ b => b.session ≠ session
  (s', s.bookmarks.entries.length - s'.bookmarks.entries.length)

/-- One bookmark moves to session `new`. -/
def renameOne (new : SessionName) (s : BookmarkStore) (key : String) : BookmarkStore :=
  match s.get? key with
  | none => s
  | some b => (s.eraseKey key).put { b with session := new, qualifiedName := qualify new b.name, named := rfl }

/-- The keys of a session's bookmarks. -/
def sessionKeys (s : BookmarkStore) (session : SessionName) : List String :=
  (s.bookmarks.entries.filter fun p => p.2.session = session).map Prod.fst

/-- `rename_session`, and how many it moved. -/
def renameSession (s : BookmarkStore) (old new : SessionName) : BookmarkStore × ℕ :=
  if old = new then (s, 0)
  else ((s.sessionKeys old).foldl (renameOne new) s, (s.sessionKeys old).length)

/-- `cursor_read_and_advance_at`: get or create the cursor, and capture its
position. -/
def cursorReadAndAdvanceAt (s : BookmarkStore) (session : SessionName) (name : String) (lateCounter : ℕ) (now : ℤ) :
    BookmarkStore × CursorCommit :=
  match s.get? (qualify session name) with
  | some b => (s, ⟨qualify session name, session, name, b.seq, b.lateMark, b.floor, rfl⟩)
  | none =>
    (s.put ⟨qualify session name, name, session, 0, now, none, lateCounter, 0, rfl⟩,
      ⟨qualify session name, session, name, 0, lateCounter, 0, rfl⟩)

/-- `CursorCommit::commit`: move the cursor from the position the read
started from, and put it back when it vanished and its seq moved. -/
def commit (s : BookmarkStore) (c : CursorCommit) (seq lateMark : ℕ) (now : ℤ) : BookmarkStore :=
  if seq = c.lowerBound ∧ lateMark = c.lateMark then s
  else match s.get? c.qualifiedName with
    | some b =>
      if b.seq = c.lowerBound ∧ b.lateMark = c.lateMark then s.put { b with seq := seq, lateMark := lateMark }
      else s
    | none =>
      if seq ≠ c.lowerBound then s.put ⟨c.qualifiedName, c.name, c.session, seq, now, none, lateMark, c.floor, c.named⟩ else s

/-! ### Lookups after each operation -/

variable {s : BookmarkStore}

theorem get?_put (b : Bookmark) (k : String) : (s.put b).get? k = if k = b.qualifiedName then some b else s.get? k :=
  FMap.get?_insert _ _ _ _

theorem get?_retain (p : String → Bookmark → Bool) (k : String) : (s.retain p).get? k = (s.get? k).filter (p k) :=
  FMap.get?_retain _ _ _

theorem get?_eraseKey (q k : String) : (s.eraseKey q).get? k = if k = q then none else s.get? k :=
  FMap.get?_erase _ _ _

/-- The bookmark under a key is of the key's session and name. -/
theorem session_of_get? {session : SessionName} {name : String} {b : Bookmark}
    (h : s.get? (qualify session name) = some b) : b.session = session ∧ b.name = name := by
  obtain ⟨h1, h2⟩ := qualify_inj ((s.keyed _ b h).trans b.named)
  exact ⟨h1.symm, h2.symm⟩

/-- An add that succeeds leaves the bookmark it made, created where it
stands. -/
theorem addAt_get? {session : SessionName} {name : String} {seq m : ℕ} {description : Option String}
    {replace : Bool} {now : ℤ} {b : Bookmark} {existed : Bool} {s' : BookmarkStore}
    (h : s.addAt session name seq m description replace now = .ok (b, existed, s')) :
    s'.get? (qualify session name) = some b ∧ b.pos = ⟨seq, m, seq⟩ := by
  simp only [addAt] at h
  split_ifs at h
  obtain ⟨rfl, h2⟩ := Prod.mk.inj (Except.ok.inj h)
  obtain ⟨-, rfl⟩ := Prod.mk.inj h2
  refine ⟨?_, rfl⟩
  rw [get?_put]
  exact if_pos rfl

/-- An explicit removal takes the key, whether or not it was there. -/
theorem get?_remove {q : String} {s' : BookmarkStore} (h : s.remove q = .ok s') : s'.get? q = none := by
  unfold remove at h
  split at h
  · simp at h
  · obtain rfl := Except.ok.inj h
    rw [get?_eraseKey, if_pos rfl]

theorem get?_clearSession (session : SessionName) (name : String) :
    (s.clearSession session).1.get? (qualify session name) = none := by
  show (s.retain _).get? _ = none
  rw [get?_retain]
  cases hb : s.get? (qualify session name) with
  | none => rfl
  | some b => simp [(session_of_get? hb).1]

/-- Moving one bookmark to `new` does not touch another session's other
keys. -/
theorem get?_renameOne {old new : SessionName} (hne : old ≠ new) (key name : String) :
    (renameOne new s key).get? (qualify old name) =
      if qualify old name = key then none else s.get? (qualify old name) := by
  unfold renameOne
  cases hb : s.get? key with
  | none =>
    split_ifs with hk
    · rw [hk, hb]
    · rfl
  | some b =>
    have hput : qualify old name ≠ qualify new b.name := fun h => hne (qualify_inj h).1
    simp only
    rw [get?_put, if_neg hput, get?_eraseKey]

/-- **A rename takes every key of the old session.** -/
theorem get?_renameSession {old new : SessionName} (hne : old ≠ new) (name : String) :
    (s.renameSession old new).1.get? (qualify old name) = none := by
  have key : ∀ (keys : List String) (s : BookmarkStore),
      (qualify old name ∈ keys ∨ s.get? (qualify old name) = none) →
        (keys.foldl (renameOne new) s).get? (qualify old name) = none := by
    intro keys
    induction keys with
    | nil => intro s h; exact h.resolve_left List.not_mem_nil
    | cons k keys ih =>
      intro s h
      refine ih _ ?_
      rw [get?_renameOne hne]
      split_ifs with hk
      · exact Or.inr rfl
      · exact h.imp_left fun hin => (List.mem_cons.mp hin).resolve_left hk
  show (if old = new then (s, 0) else _).1.get? _ = none
  rw [if_neg hne]
  refine key _ s ?_
  cases hb : s.get? (qualify old name) with
  | none => exact Or.inr rfl
  | some b =>
    refine Or.inl (List.mem_map.mpr ⟨(qualify old name, b), List.mem_filter.mpr ⟨FMap.mem_iff.mpr hb, ?_⟩, rfl⟩)
    simpa using (session_of_get? hb).1

/-- What a begin leaves under its key is what it captured. -/
theorem cursorReadAndAdvanceAt_get? (s : BookmarkStore) (session : SessionName) (name : String) (m : ℕ) (now : ℤ) :
    ∃ b, (s.cursorReadAndAdvanceAt session name m now).1.get? (qualify session name) = some b ∧
      (s.cursorReadAndAdvanceAt session name m now).2 =
        ⟨qualify session name, session, name, b.seq, b.lateMark, b.floor, rfl⟩ ∧
      (s.get? (qualify session name) = some b ∨
        (s.get? (qualify session name) = none ∧ b.pos = ⟨0, m, 0⟩)) := by
  unfold cursorReadAndAdvanceAt
  cases hb : s.get? (qualify session name) with
  | some b => exact ⟨b, hb, rfl, Or.inl rfl⟩
  | none =>
    refine ⟨⟨qualify session name, name, session, 0, now, none, m, 0, rfl⟩, ?_, rfl, Or.inr ⟨rfl, rfl⟩⟩
    simp only
    rw [get?_put]
    exact if_pos rfl

@[simp] theorem cursorReadAndAdvanceAt_qualifiedName (session : SessionName) (name : String) (m : ℕ) (now : ℤ) :
    (s.cursorReadAndAdvanceAt session name m now).2.qualifiedName = qualify session name := by
  unfold cursorReadAndAdvanceAt
  split <;> rfl

/-- **What a commit leaves under its key.** -/
theorem get?_commit (c : CursorCommit) (seq lateMark : ℕ) (now : ℤ) :
    (s.commit c seq lateMark now).get? c.qualifiedName =
      if seq = c.lowerBound ∧ lateMark = c.lateMark then s.get? c.qualifiedName
      else match s.get? c.qualifiedName with
        | some b => some (if b.seq = c.lowerBound ∧ b.lateMark = c.lateMark
            then { b with seq := seq, lateMark := lateMark } else b)
        | none => if seq ≠ c.lowerBound
            then some ⟨c.qualifiedName, c.name, c.session, seq, now, none, lateMark, c.floor, c.named⟩ else none := by
  unfold commit
  by_cases hsame : seq = c.lowerBound ∧ lateMark = c.lateMark
  · rw [if_pos hsame, if_pos hsame]
  · rw [if_neg hsame, if_neg hsame]
    cases hb : s.get? c.qualifiedName with
    | some b =>
      have hq : c.qualifiedName = b.qualifiedName := s.keyed _ b hb
      simp only
      split_ifs with hpair
      · rw [get?_put]
        exact if_pos hq
      · exact hb
    | none =>
      simp only
      split_ifs with hseq
      · rw [get?_put]
        exact if_pos rfl
      · exact hb

/-- A cursor that vanished comes back when the seq moved. -/
theorem get?_commit_of_none {c : CursorCommit} (h : s.get? c.qualifiedName = none) (seq lateMark : ℕ) (now : ℤ) :
    (s.commit c seq lateMark now).get? c.qualifiedName = none ↔ seq = c.lowerBound := by
  rw [get?_commit, h]
  by_cases hseq : seq = c.lowerBound
  · simp [hseq]
  · simp [hseq]

end BookmarkStore
end Logmon
