/-
# The names bookmarks are stored under

Names enter the store by two routes: `bookmarks.add` checks them with
`is_valid_bookmark_name`, and a cursor in a filter with the DSL's own
`is_valid_bookmark_token` (`filter/parser.rs`), which admits a `/` for
qualified names and has no bound on the length. The store keeps every bookmark
under `session/name` whatever the name is (`BookmarkStore.keyed`); the name is
valid as long as the cursors the filters create have names that fit
(`bookmark_names_valid`), and otherwise it need not be
(`cursor_creates_invalid_name`).

Key definitions: `isValidBookmarkToken`, `ParsedFilter.Accepted`,
`BookmarkRun`, `BookmarkRun.namesFit`.
Key theorems: `resolveBookmarksAt_names`, `bookmark_names_valid`.
-/
import Logmon.Filter.Resolver
import Logmon.Lib.Reach

namespace Logmon

open Lib

/-- A bookmark name as a filter token has it. -/
def isValidBookmarkToken (name : String) : Bool :=
  if name.isEmpty then false
  else name.toList.all fun c => c.isAlphanum || c = '-' || c = '_' || c = '/'

/-- What the parser promises of a filter: the names of its bookmarks and
cursors are valid tokens, it has one cursor at most and no internal bound. -/
def ParsedFilter.Accepted : ParsedFilter → Prop
  | .qualifiers qs =>
    qs ≠ [] ∧ (∀ op name, Qualifier.bookmarkFilter op name ∈ qs → isValidBookmarkToken name = true) ∧
      (∀ name, Qualifier.cursorFilter name ∈ qs → isValidBookmarkToken name = true) ∧
      (qs.countP fun q => match q with | .cursorFilter _ => true | _ => false) ≤ 1 ∧
      ∀ q ∈ qs, q.lower?.isNone ∧ q.upper?.isNone
  | _ => True

/-- A name of one to 64 bytes without a `/`. -/
def NameFits (name : String) : Prop := name.isEmpty = false ∧ name.utf8ByteSize ≤ 64 ∧ '/' ∉ name.toList

/-! ### Splitting a qualified name -/

theorem takeWhile_append_slash {l k : List Char} (h : '/' ∉ l) :
    (l ++ '/' :: k).takeWhile (· ≠ '/') = l ∧ (l ++ '/' :: k).dropWhile (· ≠ '/') = '/' :: k := by
  induction l with
  | nil => simp
  | cons c l ih =>
    obtain ⟨hc, hl⟩ : '/' ≠ c ∧ '/' ∉ l := by simpa using h
    obtain ⟨h1, h2⟩ := ih hl
    have hc' : (decide (c ≠ '/')) = true := by simpa using hc.symm
    simp only [List.cons_append, List.takeWhile_cons, List.dropWhile_cons, hc', ↓reduceIte]
    exact ⟨by rw [h1], h2⟩

/-- A bare name splits off the session it was qualified with. -/
theorem splitQualified_qualify (session : SessionName) (name : String) :
    splitQualified (qualify session name) = (session.text, name) := by
  have hlist : (qualify session name).toList = session.text.toList ++ '/' :: name.toList := by
    simp [qualify, String.toList_append]
  obtain ⟨h1, h2⟩ := takeWhile_append_slash (k := name.toList) session.noSlash
  simp only [splitQualified, hlist, h1, h2]
  simp

/-- The name of a cursor token: what follows its first `/`, or all of it. -/
theorem target_of_token (session : SessionName) (token : String) :
    (splitQualified (qualifyName token session)).2 = token ∨
      (splitQualified (qualifyName token session)).2 = (splitQualified token).2 := by
  unfold qualifyName
  split
  · exact .inr rfl
  · rw [splitQualified_qualify]
    exact .inl rfl

/-- A name that fits and whose letters a token may have is valid. -/
theorem isValidBookmarkName_of_token {token name : String} (ht : isValidBookmarkToken token = true)
    (hname : name = token ∨ name = (splitQualified token).2) (hf : NameFits name) : isValidBookmarkName name = true := by
  obtain ⟨hne, hlen, hslash⟩ := hf
  have hsub : ∀ c ∈ name.toList, c ∈ token.toList := by
    rcases hname with rfl | rfl
    · exact fun _ h => h
    · intro c hc
      have hc' : c ∈ (token.toList.dropWhile (· ≠ '/')).drop 1 := by simpa [splitQualified] using hc
      exact (List.dropWhile_sublist _).subset (List.mem_of_mem_drop hc')
  have hall : ∀ c ∈ token.toList, (c.isAlphanum || c = '-' || c = '_' || c = '/') = true := by
    unfold isValidBookmarkToken at ht
    split at ht
    · simp at ht
    · exact List.all_eq_true.mp ht
  unfold isValidBookmarkName
  rw [if_neg (by simp only [hne, Bool.false_or, decide_eq_true_eq]; omega)]
  refine List.all_eq_true.mpr fun c hc => ?_
  have hor := hall c (hsub c hc)
  have hnot : c ≠ '/' := fun h => hslash (h ▸ hc)
  simpa [hnot] using hor

/-! ### The names of a store -/

namespace BookmarkStore

/-- Every bookmark's name satisfies `P`. -/
def Names (P : String → Prop) (s : BookmarkStore) : Prop := ∀ k b, s.get? k = some b → P b.name

variable {P : String → Prop} {s s' : BookmarkStore}

theorem names_new : Names P .new := fun k b h => by simp [get?, new] at h

theorem Names.put (h : s.Names P) {b : Bookmark} (hb : P b.name) : (s.put b).Names P := by
  intro k b' hk
  rw [get?_put] at hk
  split at hk
  · rw [← Option.some.inj hk]
    exact hb
  · exact h k b' hk

theorem Names.retain (h : s.Names P) (p : String → Bookmark → Bool) : (s.retain p).Names P := by
  intro k b hk
  rw [get?_retain, Option.filter_eq_some_iff] at hk
  exact h k b hk.1

theorem Names.addAt (h : s.Names P) (hvalid : ∀ n, isValidBookmarkName n = true → P n) {session : SessionName}
    {name : String} {seq m : ℕ} {description : Option String} {replace : Bool} {now : ℤ} {b : Bookmark}
    {existed : Bool} (hs : s.addAt session name seq m description replace now = .ok (b, existed, s')) :
    s'.Names P := by
  simp only [BookmarkStore.addAt] at hs
  split_ifs at hs with hname
  obtain ⟨-, h2⟩ := Prod.mk.inj (Except.ok.inj hs)
  obtain ⟨-, rfl⟩ := Prod.mk.inj h2
  exact h.put (hvalid name (by simpa using hname))

theorem Names.renameOne (h : s.Names P) (new : SessionName) (key : String) : (renameOne new s key).Names P := by
  unfold BookmarkStore.renameOne
  split
  · exact h
  · rename_i b hb
    exact (h.retain _).put (h key b hb)

theorem Names.renameSession (h : s.Names P) (old new : SessionName) : (s.renameSession old new).1.Names P := by
  have key : ∀ (keys : List String) (s : BookmarkStore), s.Names P → (keys.foldl (BookmarkStore.renameOne new) s).Names P := by
    intro keys
    induction keys with
    | nil => exact fun _ h => h
    | cons k keys ih => exact fun s h => ih _ (h.renameOne new k)
  unfold BookmarkStore.renameSession
  split
  · exact h
  · exact key _ s h

theorem Names.cursorReadAndAdvanceAt (h : s.Names P) (session : SessionName) {name : String} (hname : P name)
    (lateCounter : ℕ) (now : ℤ) : (s.cursorReadAndAdvanceAt session name lateCounter now).1.Names P := by
  unfold BookmarkStore.cursorReadAndAdvanceAt
  split
  · exact h
  · exact h.put hname

theorem cursorReadAndAdvanceAt_name (s : BookmarkStore) (session : SessionName) (name : String) (lateCounter : ℕ)
    (now : ℤ) : (s.cursorReadAndAdvanceAt session name lateCounter now).2.name = name := by
  unfold BookmarkStore.cursorReadAndAdvanceAt
  split <;> rfl

theorem Names.commit (h : s.Names P) {c : CursorCommit} (hc : P c.name) (seq lateMark : ℕ) (now : ℤ) :
    (s.commit c seq lateMark now).Names P := by
  unfold BookmarkStore.commit
  split
  · exact h
  · split
    · rename_i b hb
      split
      · exact h.put (h _ b hb)
      · exact h
    · split
      · exact h.put hc
      · exact h

end BookmarkStore

open BookmarkStore

/-- The loop creates cursors of the filter only. -/
theorem resolveQualifiers_names {P : String → Prop} {session : SessionName} {lateCounter : ℕ} {now : ℤ} :
    ∀ (qs : List Qualifier) {s : BookmarkStore} {out : List Qualifier} {commit : Option CursorCommit}, s.Names P →
    (∀ c ∈ commit, P c.name) →
    (∀ name, .cursorFilter name ∈ qs → (splitQualified (qualifyName name session)).1 = session.text →
      P (splitQualified (qualifyName name session)).2) →
    (resolveQualifiers session lateCounter now qs s out commit).1.Names P ∧
      ∀ r, (resolveQualifiers session lateCounter now qs s out commit).2 = .ok r → ∀ c ∈ r.cursorCommit, P c.name
  | [], s, out, commit, hs, hc, _ => by
    refine ⟨hs, fun r hr => ?_⟩
    obtain rfl := Except.ok.inj hr
    exact hc
  | q :: qs, s, out, commit, hs, hc, hq => by
    have hrest : ∀ name, .cursorFilter name ∈ qs → (splitQualified (qualifyName name session)).1 = session.text →
        P (splitQualified (qualifyName name session)).2 := fun name hn => hq name (List.mem_cons_of_mem _ hn)
    unfold resolveQualifiers
    split
    · rename_i hnil
      simp at hnil
    · rename_i hcons
      obtain ⟨rfl, rfl⟩ := List.cons.inj hcons
      split
      · exact ⟨hs, by simp⟩
      · exact resolveQualifiers_names _ hs hc hrest
    · rename_i name rest hcons
      obtain ⟨rfl, rfl⟩ := List.cons.inj hcons
      dsimp only
      split
      · exact ⟨hs, by simp⟩
      · rename_i htarget
        have hname := hq name List.mem_cons_self (not_not.mp htarget)
        refine resolveQualifiers_names _ (hs.cursorReadAndAdvanceAt session hname lateCounter now) ?_ hrest
        intro c hc'
        rw [← Option.mem_some_iff.mp hc', cursorReadAndAdvanceAt_name]
        exact hname
    · rename_i hcons
      obtain ⟨rfl, rfl⟩ := List.cons.inj hcons
      exact resolveQualifiers_names _ hs hc hrest

/-- **A resolution creates cursors of its filter only.** -/
theorem resolveBookmarksAt_names {P : String → Prop} {f : ParsedFilter} {s : BookmarkStore} {session : SessionName}
    {lateCounter : ℕ} {now : ℤ} (hs : s.Names P)
    (hq : ∀ qs, f = .qualifiers qs → ∀ name, .cursorFilter name ∈ qs →
      (splitQualified (qualifyName name session)).1 = session.text → P (splitQualified (qualifyName name session)).2) :
    (resolveBookmarksAt f s session lateCounter now).1.Names P ∧
      ∀ r, (resolveBookmarksAt f s session lateCounter now).2 = .ok r → ∀ c ∈ r.cursorCommit, P c.name := by
  unfold resolveBookmarksAt
  split
  · exact resolveQualifiers_names _ hs (by simp) (hq _ rfl)
  · refine ⟨hs, fun r hr => ?_⟩
    obtain rfl := Except.ok.inj hr
    simp

/-! ### Runs -/

/-- A domain's bookmarks, with the handles of the reads under way. -/
structure BookmarkRun where
  store : BookmarkStore
  handles : List CursorCommit

inductive BookmarkAct
  | add (session : SessionName) (name : String) (seq lateMark : ℕ) (description : Option String) (replace : Bool)
      (now : ℤ)
  | resolve (session : SessionName) (filter : ParsedFilter) (lateCounter : ℕ) (now : ℤ)
  | commit (c : CursorCommit) (seq lateMark : ℕ) (now : ℤ)
  | remove (qualifiedName : String)
  | sweep (logLostBelow spanLostBelow : ℕ)
  | renameSession (old new : SessionName)
  | clearSession (session : SessionName)

namespace BookmarkRun

/-- A request that fails changes nothing but what a failed resolution has
created. -/
def step (r : BookmarkRun) : BookmarkAct → Option BookmarkRun
  | .add session name seq lateMark description replace now =>
    match r.store.addAt session name seq lateMark description replace now with
    | .error _ => some r
    | .ok (_, _, s) => some { r with store := s }
  | .resolve session filter lateCounter now =>
    match resolveBookmarksAt filter r.store session lateCounter now with
    | (s, .error _) => some { r with store := s }
    | (s, .ok resolved) => some ⟨s, resolved.cursorCommit.toList ++ r.handles⟩
  | .commit c seq lateMark now =>
    if c ∈ r.handles then some ⟨r.store.commit c seq lateMark now, r.handles.erase c⟩ else none
  | .remove qualifiedName =>
    match r.store.remove qualifiedName with
    | .error _ => some r
    | .ok s => some { r with store := s }
  | .sweep logLostBelow spanLostBelow => some { r with store := r.store.sweep logLostBelow spanLostBelow }
  | .renameSession old new => some { r with store := (r.store.renameSession old new).1 }
  | .clearSession session => some { r with store := (r.store.clearSession session).1 }

/-- A resolved filter is one the parser accepts, and the cursors in it that
name the session have names that fit. -/
def namesFit (_ : BookmarkRun) : BookmarkAct → Prop
  | .resolve session filter _ _ =>
    filter.Accepted ∧ ∀ qs, filter = .qualifiers qs → ∀ name, .cursorFilter name ∈ qs →
      (splitQualified (qualifyName name session)).1 = session.text →
        NameFits (splitQualified (qualifyName name session)).2
  | _ => True

/-- The bookmarks and the handles have valid names. -/
def Valid (r : BookmarkRun) : Prop :=
  r.store.Names (isValidBookmarkName · = true) ∧ ∀ c ∈ r.handles, isValidBookmarkName c.name = true

theorem Valid.step {r r' : BookmarkRun} {a : BookmarkAct} (h : r.Valid) (hg : r.namesFit a)
    (hs : r.step a = some r') : r'.Valid := by
  cases a with
  | add session name seq lateMark description replace now =>
    simp only [BookmarkRun.step] at hs
    split at hs
    · obtain rfl := Option.some.inj hs
      exact h
    · rename_i hadd
      obtain rfl := Option.some.inj hs
      exact ⟨h.1.addAt (fun _ hn => hn) hadd, h.2⟩
  | resolve session filter lateCounter now =>
    obtain ⟨hacc, hfit⟩ := hg
    have hcursors : ∀ qs, filter = .qualifiers qs → ∀ name, .cursorFilter name ∈ qs →
        (splitQualified (qualifyName name session)).1 = session.text →
          isValidBookmarkName (splitQualified (qualifyName name session)).2 = true := by
      rintro qs rfl name hmem hsession
      exact isValidBookmarkName_of_token (hacc.2.2.1 name hmem) (target_of_token session name)
        (hfit qs rfl name hmem hsession)
    have hnames := @resolveBookmarksAt_names _ filter r.store session lateCounter now h.1 hcursors
    simp only [BookmarkRun.step] at hs
    split at hs
    · rename_i hres
      obtain rfl := Option.some.inj hs
      rw [hres] at hnames
      exact ⟨hnames.1, h.2⟩
    · rename_i resolved hres
      obtain rfl := Option.some.inj hs
      rw [hres] at hnames
      refine ⟨hnames.1, fun c hc => ?_⟩
      rcases List.mem_append.mp hc with hc | hc
      · exact hnames.2 resolved rfl c (Option.mem_toList.mp hc)
      · exact h.2 c hc
  | commit c seq lateMark now =>
    simp only [BookmarkRun.step] at hs
    split at hs
    · rename_i hc
      obtain rfl := Option.some.inj hs
      exact ⟨h.1.commit (h.2 c hc) seq lateMark now, fun d hd => h.2 d (List.mem_of_mem_erase hd)⟩
    · simp at hs
  | remove qualifiedName =>
    simp only [BookmarkRun.step, BookmarkStore.remove] at hs
    split at hs
    · obtain rfl := Option.some.inj hs
      exact h
    · rename_i hrem
      split at hrem
      · simp at hrem
      · obtain rfl := Except.ok.inj hrem
        obtain rfl := Option.some.inj hs
        exact ⟨h.1.retain _, h.2⟩
  | sweep logLostBelow spanLostBelow =>
    obtain rfl := Option.some.inj hs
    exact ⟨h.1.retain _, h.2⟩
  | renameSession old new =>
    obtain rfl := Option.some.inj hs
    exact ⟨h.1.renameSession old new, h.2⟩
  | clearSession session =>
    obtain rfl := Option.some.inj hs
    exact ⟨h.1.retain _, h.2⟩

end BookmarkRun

/-- **Bookmark keys stay well formed** in every run whose cursors have names
that fit: a stored bookmark is held under `session/name`, and its name is
valid. -/
theorem bookmark_names_valid {r : BookmarkRun} (hr : Reach BookmarkRun.step BookmarkRun.namesFit ⟨.new, []⟩ r)
    (k : String) (b : Bookmark) (hb : r.store.get? k = some b) :
    k = b.session.text ++ "/" ++ b.name ∧ k = b.qualifiedName ∧ isValidBookmarkName b.name = true := by
  have hvalid : r.Valid := hr.invariant ⟨names_new, by simp⟩ fun _ _ _ h hg hs => h.step hg hs
  have hkey : k = b.qualifiedName := r.store.keyed k b hb
  exact ⟨hkey.trans b.named, hkey, hvalid.1 k b hb⟩

/-- A session reads a cursor. -/
def BookmarkAct.readAs (session : SessionName) (token : String) : BookmarkAct :=
  .resolve session (.qualifiers [.cursorFilter token]) 0 0

theorem bookmark_names_valid_reader : ∃ r b,
    BookmarkRun.step ⟨.new, []⟩ (.readAs ⟨"A", by decide⟩ "A/reader") = some r ∧ r.store.get? "A/reader" = some b ∧
      b.name = "reader" ∧ isValidBookmarkName b.name = true := by
  refine ⟨_, _, rfl, rfl, rfl, ?_⟩
  have hfit : BookmarkRun.namesFit ⟨.new, []⟩ (.readAs ⟨"A", by decide⟩ "A/reader") := by
    refine ⟨⟨by simp, by simp, by simp; decide, by simp, by simp [Qualifier.lower?, Qualifier.upper?]⟩, ?_⟩
    intro qs hqs name hname _
    obtain rfl := ParsedFilter.qualifiers.inj hqs
    obtain rfl : name = "A/reader" := by simpa using hname
    exact ⟨by decide, by decide, by decide⟩
  exact (bookmark_names_valid (.next .start hfit rfl) "A/reader" _ rfl).2.2

/-- **A cursor token can leave an invalid name.** `c>=A/` is a valid filter:
in session `A` it creates a cursor whose name is empty, under the key `A/`. -/
theorem cursor_creates_invalid_name :
    ParsedFilter.Accepted (.qualifiers [.cursorFilter "A/"]) ∧
    ∃ r b, BookmarkRun.step ⟨.new, []⟩ (.readAs ⟨"A", by decide⟩ "A/") = some r ∧ r.store.get? "A/" = some b ∧
      b.name = "" ∧ isValidBookmarkName b.name = false := by
  refine ⟨⟨by simp, by simp, by simp; decide, by simp, by simp [Qualifier.lower?, Qualifier.upper?]⟩, _, _, rfl, rfl, ?_, ?_⟩
  · rfl
  · decide

end Logmon
