/-
# Overlapping reads of one cursor

Any number of reads of one cursor at once: each takes a handle at its begin,
reads the ring without the bookmarks' lock, and commits what it kept. Writers,
sweeps and explicit adds of the bookmark run in between.

A commit moves the bookmark only from the exact position its read began from,
so a stored position never moves back but by an add; and what it has passed
was returned by some read (`overlapping_reads`). A sweep takes the bookmark
away, and with it the position: the next read makes the cursor anew at 0. A
commit that lands on a bookmark created at a lower position than the read's
own is left out: the read did not look below its floor.

Key definitions: `CursorAct`, `Overlap`, `Overlap.step`, `LandsAbove`.
Key theorems: `overlapping_reads`.
-/
import Logmon.Lib.Reach
import Logmon.Store.Bookmarks
import Logmon.Store.Cursor

namespace Logmon

open Lib InMemoryStore

/-- A read in flight: its handle, and the ring read once it was made. -/
structure Flight where
  handle : CursorCommit
  read : Option CursorRead

/-- What can happen to the cursor. -/
inductive CursorAct
  | write (op : RingOp)
  | begin (lateCounter : ℕ)
  | read (i count : ℕ) (filter : Option ParsedFilter)
  | commit (i kept : ℕ)
  | abandon (i : ℕ)
  | sweep (spanLostBelow : ℕ)
  | add (seq lateMark : ℕ) (description : Option String) (replace : Bool)

def CursorAct.isAdd : CursorAct → Bool
  | .add .. => true
  | _ => false

/-- A ring, the bookmarks, the reads in flight, and the seqs returned. -/
structure Overlap where
  ring : InMemoryStore
  store : BookmarkStore
  flights : List Flight
  returned : List ℕ

namespace Overlap

variable (E : TextEnv) (session : SessionName) (name : String) (now : ℤ)

def start (cap : ℕ) (hcap : cap ≤ u64Max) : Overlap := ⟨InMemoryStore.new cap hcap, .new, [], []⟩

/-- The bookmark, when it is stored. -/
def stored (c : Overlap) : Option Bookmark := c.store.get? (qualify session name)

/-- One action on the cursor `name` of `session`. A begin and an add read the
late counter before they take the bookmarks' lock. -/
def step (c : Overlap) : CursorAct → Option Overlap
  | .write op => some { c with ring := c.ring.apply op }
  | .begin m =>
    if m ≤ c.ring.lateCounter then
      let (store, handle) := c.store.cursorReadAndAdvanceAt session name m now
      some { c with store := store, flights := c.flights ++ [⟨handle, none⟩] }
    else none
  | .read i count filter =>
    match c.flights[i]? with
    | some ⟨handle, none⟩ =>
      let read := cursorRead E c.ring count (filterAt filter handle.lowerBound) handle.cursorPos
      some { c with flights := c.flights.set i ⟨handle, some read⟩ }
    | _ => none
  | .commit i kept =>
    match c.flights[i]? with
    | some ⟨handle, some read⟩ =>
      let adv := read.advanceFor kept
      some { c with
        store := c.store.commit handle adv.seq adv.lateMark now
        flights := c.flights.eraseIdx i
        returned := c.returned ++ keptSeqs read kept }
    | _ => none
  | .abandon i => some { c with flights := c.flights.eraseIdx i }
  | .sweep spanLostBelow => some { c with store := c.store.sweep c.ring.lostBelow spanLostBelow }
  | .add seq m description replace =>
    if m ≤ c.ring.lateCounter then
      match c.store.addAt session name seq m description replace now with
      | .ok (_, _, store) => some { c with store := store }
      | .error _ => some c
    else none

/-! ### Runs -/

/-- A commit lands only on a bookmark created at or above the read's own
floor. -/
def LandsAbove (c : Overlap) : CursorAct → Prop
  | .commit i _ => ∀ fl b, c.flights[i]? = some fl → c.stored session name = some b →
      b.seq = fl.handle.lowerBound → b.lateMark = fl.handle.lateMark → fl.handle.floor ≤ b.floor
  | _ => True

/-- The reads use the filters of `F`. -/
def Uses (F : Option ParsedFilter → Prop) : CursorAct → Prop
  | .read _ _ filter => F filter
  | _ => True

/-- A record every filter of `F` selects. -/
def SelectedByAll (F : Option ParsedFilter → Prop) (e : LogEntry) : Prop :=
  ∀ f, F f → matchesOpt? E (filterAt f 0) e = true

/-- What every state keeps about a read in flight. -/
structure FlightOk (fl : Flight) : Prop where
  key : fl.handle.qualifiedName = qualify session name
  /-- A read only moves up from where it began. -/
  moves : ∀ read, fl.read = some read → read.pos = fl.handle.cursorPos ∧
    ∀ k, fl.handle.lowerBound ≤ (read.posFor k).seq ∧ fl.handle.lateMark ≤ (read.posFor k).lateMark

/-- What every state keeps. -/
structure Sound (c : Overlap) : Prop where
  wf : c.ring.WF
  flights : ∀ fl ∈ c.flights, FlightOk session name fl

/-- What every state of a run that meets `LandsAbove` keeps, of the records
`P` selects. -/
structure Covered (P : LogEntry → Prop) (c : Overlap) : Prop where
  reached : ∀ s ∈ c.returned, s ≤ u64Max ∧ ((∃ e ∈ c.ring.entries, e.seq = s) ∨ satAdd s 1 ≤ c.ring.lostBelow)
  stored : ∀ b, c.stored session name = some b → Covers P c.ring b.pos c.returned
  flights : ∀ fl ∈ c.flights, Covers P c.ring fl.handle.cursorPos c.returned
  reads : ∀ fl ∈ c.flights, ∀ read, fl.read = some read →
    ∀ k, Covers P c.ring (read.posFor k) (c.returned ++ keptSeqs read k)

variable {E session name now}

theorem selects_of_uses {F : Option ParsedFilter → Prop} {f : Option ParsedFilter} (hf : F f) (pos : CursorPos) :
    Selects E (SelectedByAll E F) (filterAt f pos.seq) pos where
  normal e hP hlt := by
    rw [matchesOpt_filterAt_congr f hlt (b := 0) (by omega)]
    exact hP f hf
  late _ hP := matchesPast_of_matchesOpt _ (hP f hf)

theorem mem_eraseIdx {α : Type} {l : List α} {i : ℕ} {x : α} (h : x ∈ l.eraseIdx i) : x ∈ l :=
  (List.eraseIdx_sublist l i).subset h

/-- A flight that `set` leaves is the new one or was there. -/
theorem mem_set {α : Type} {l : List α} {i : ℕ} {x y : α} (h : x ∈ l.set i y) : x = y ∨ x ∈ l :=
  (List.mem_or_eq_of_mem_set h).symm

/-- Every action keeps the ring and the flights sound. -/
theorem Sound.step {c c' : Overlap} {a : CursorAct} (h : Sound session name c)
    (hs : step E session name now c a = some c') : Sound session name c' := by
  cases a with
  | write op =>
    obtain rfl := Option.some.inj hs
    exact ⟨h.wf.apply op, h.flights⟩
  | begin m =>
    simp only [Overlap.step] at hs
    split_ifs at hs with hm
    obtain rfl := Option.some.inj hs
    refine ⟨h.wf, fun fl hfl => ?_⟩
    rcases List.mem_append.mp hfl with hfl | hfl
    · exact h.flights fl hfl
    · obtain rfl := List.mem_singleton.mp hfl
      exact ⟨BookmarkStore.cursorReadAndAdvanceAt_qualifiedName session name m now, fun read hr => by simp at hr⟩
  | read i count filter =>
    simp only [Overlap.step] at hs
    split at hs
    · rename_i handle hi
      obtain rfl := Option.some.inj hs
      have hin := List.mem_of_getElem? hi
      refine ⟨h.wf, fun fl hfl => ?_⟩
      rcases mem_set hfl with rfl | hfl
      · refine ⟨(h.flights _ hin).key, fun read hr => ?_⟩
        obtain rfl := Option.some.inj hr
        exact ⟨rfl, fun k => ⟨(h.wf.posFor_bounds E count _ handle.cursorPos k).1,
          (h.wf.posFor_bounds E count _ handle.cursorPos k).2.1⟩⟩
      · exact h.flights fl hfl
    · simp at hs
  | commit i kept =>
    simp only [Overlap.step] at hs
    split at hs
    · obtain rfl := Option.some.inj hs
      exact ⟨h.wf, fun fl hfl => h.flights fl (mem_eraseIdx hfl)⟩
    · simp at hs
  | abandon i =>
    obtain rfl := Option.some.inj hs
    exact ⟨h.wf, fun fl hfl => h.flights fl (mem_eraseIdx hfl)⟩
  | sweep lost =>
    obtain rfl := Option.some.inj hs
    exact ⟨h.wf, h.flights⟩
  | add seq m description replace =>
    simp only [Overlap.step] at hs
    split_ifs at hs with hm
    split at hs
    · obtain rfl := Option.some.inj hs
      exact ⟨h.wf, h.flights⟩
    · obtain rfl := Option.some.inj hs
      exact h

/-! ### The stored position -/

/-- The bookmark after a commit: as it was, moved from where the read began,
or put back after it vanished. -/
theorem stored_commit (c : Overlap) {fl : Flight} (hfl : FlightOk session name fl) (seq m : ℕ) (now : ℤ) :
    (c.store.commit fl.handle seq m now).get? (qualify session name) = c.stored session name ∨
      (∃ b, c.stored session name = some b ∧ b.seq = fl.handle.lowerBound ∧ b.lateMark = fl.handle.lateMark ∧
        (c.store.commit fl.handle seq m now).get? (qualify session name) =
          some { b with seq := seq, lateMark := m }) ∨
      (c.stored session name = none ∧ (c.store.commit fl.handle seq m now).get? (qualify session name) =
        some ⟨fl.handle.qualifiedName, fl.handle.name, fl.handle.session, seq, now, none, m, fl.handle.floor, fl.handle.named⟩) := by
  unfold stored
  rw [← hfl.key, BookmarkStore.get?_commit]
  by_cases hsame : seq = fl.handle.lowerBound ∧ m = fl.handle.lateMark
  · exact Or.inl (if_pos hsame)
  · rw [if_neg hsame]
    cases hb : c.store.get? fl.handle.qualifiedName with
    | some b =>
      by_cases hpair : b.seq = fl.handle.lowerBound ∧ b.lateMark = fl.handle.lateMark
      · exact Or.inr (Or.inl ⟨b, rfl, hpair.1, hpair.2, congrArg some (if_pos hpair)⟩)
      · exact Or.inl (congrArg some (if_neg hpair))
    | none =>
      by_cases hseq : seq ≠ fl.handle.lowerBound
      · exact Or.inr (Or.inr ⟨rfl, if_pos hseq⟩)
      · exact Or.inl (if_neg hseq)

/-- **A stored position moves back by an add only.** -/
theorem Sound.never_back {c c' : Overlap} {a : CursorAct} (h : Sound session name c) (ha : a.isAdd = false)
    (hs : Overlap.step E session name now c a = some c') {b b' : Bookmark} (hb : c.stored session name = some b)
    (hb' : c'.stored session name = some b') : b.seq ≤ b'.seq ∧ b.lateMark ≤ b'.lateMark ∧ b.floor = b'.floor := by
  have same : c'.stored session name = some b → b.seq ≤ b'.seq ∧ b.lateMark ≤ b'.lateMark ∧ b.floor = b'.floor := by
    intro heq
    obtain rfl := Option.some.inj (heq.symm.trans hb')
    exact ⟨le_rfl, le_rfl, rfl⟩
  cases a with
  | write op =>
    obtain rfl := Option.some.inj hs
    exact same hb
  | begin m =>
    simp only [Overlap.step] at hs
    split_ifs at hs with hm
    obtain rfl := Option.some.inj hs
    refine same ?_
    obtain ⟨x, hx, -, hx' | ⟨hnone, -⟩⟩ :=
      c.store.cursorReadAndAdvanceAt_get? session name m now
    · rw [show c.store.get? (qualify session name) = some b from hb] at hx'
      obtain rfl := Option.some.inj hx'
      exact hx
    · rw [show c.store.get? (qualify session name) = some b from hb] at hnone
      simp at hnone
  | read i count filter =>
    simp only [Overlap.step] at hs
    split at hs
    · obtain rfl := Option.some.inj hs
      exact same hb
    · simp at hs
  | commit i kept =>
    simp only [Overlap.step] at hs
    split at hs
    · rename_i handle read hi
      obtain rfl := Option.some.inj hs
      have hok := h.flights _ (List.mem_of_getElem? hi)
      have hmoves := (hok.moves read rfl).2 kept
      rcases stored_commit c hok (read.advanceFor kept).seq (read.advanceFor kept).lateMark now with
        heq | ⟨b₀, hb₀, hseq, hmark, hmoved⟩ | ⟨hnone, -⟩
      · exact same (heq.trans hb)
      · obtain rfl := Option.some.inj (hb.symm.trans hb₀)
        obtain rfl := Option.some.inj (hb'.symm.trans hmoved)
        exact ⟨hseq.le.trans hmoves.1, hmark.le.trans hmoves.2, rfl⟩
      · rw [hb] at hnone
        simp at hnone
    · simp at hs
  | abandon i =>
    obtain rfl := Option.some.inj hs
    exact same hb
  | sweep lost =>
    obtain rfl := Option.some.inj hs
    have hkept : (c.store.sweep c.ring.lostBelow lost).get? (qualify session name) = some b' := hb'
    rw [show c.store.sweep c.ring.lostBelow lost = c.store.retain _ from rfl, BookmarkStore.get?_retain,
      Option.filter_eq_some_iff] at hkept
    obtain rfl := Option.some.inj (hb.symm.trans hkept.1)
    exact ⟨le_rfl, le_rfl, rfl⟩
  | add seq m description replace => simp [CursorAct.isAdd] at ha

/-! ### What the position has passed -/

section covered

variable {P : LogEntry → Prop} {c : Overlap}

/-- A flight begun now is where the bookmark is. -/
theorem Covered.begin (h : Covered session name P c) {m : ℕ} (hm : m ≤ c.ring.lateCounter) :
    Covered session name P { c with
      store := (c.store.cursorReadAndAdvanceAt session name m now).1
      flights := c.flights ++ [⟨(c.store.cursorReadAndAdvanceAt session name m now).2, none⟩] } := by
  obtain ⟨b, hb, hhandle, hwas⟩ := c.store.cursorReadAndAdvanceAt_get? session name m now
  have hcov : Covers P c.ring b.pos c.returned := by
    rcases hwas with hwas | ⟨-, hpos⟩
    · exact h.stored b hwas
    · rw [hpos]
      exact covers_new hm h.reached
  refine ⟨h.reached, fun b' hb' => ?_, fun fl hfl => ?_, fun fl hfl => ?_⟩
  · obtain rfl := Option.some.inj (hb.symm.trans hb')
    exact hcov
  · rcases List.mem_append.mp hfl with hfl | hfl
    · exact h.flights fl hfl
    · obtain rfl := List.mem_singleton.mp hfl
      rw [hhandle]
      exact hcov
  · rcases List.mem_append.mp hfl with hfl | hfl
    · exact h.reads fl hfl
    · obtain rfl := List.mem_singleton.mp hfl
      exact fun read hr => by simp at hr

/-- A commit returns what its read kept, and moves the bookmark no further. -/
theorem Covered.commit (h : Covered session name P c) (hsound : Sound session name c) {i kept : ℕ}
    (hland : LandsAbove session name c (.commit i kept)) {handle : CursorCommit} {read : CursorRead}
    (hi : c.flights[i]? = some ⟨handle, some read⟩) :
    Covered session name P { c with
      store := c.store.commit handle (read.advanceFor kept).seq (read.advanceFor kept).lateMark now
      flights := c.flights.eraseIdx i
      returned := c.returned ++ keptSeqs read kept } := by
  have hin := List.mem_of_getElem? hi
  have hok := hsound.flights _ hin
  have hread := h.reads _ hin read rfl kept
  have hreached : ∀ s ∈ c.returned ++ keptSeqs read kept, s ≤ u64Max ∧
      ((∃ e ∈ c.ring.entries, e.seq = s) ∨ satAdd s 1 ≤ c.ring.lostBelow) := fun s hs =>
    ⟨hread.top s hs, hread.reached s hs⟩
  have more : ∀ {pos : CursorPos}, Covers P c.ring pos c.returned →
      Covers P c.ring pos (c.returned ++ keptSeqs read kept) := fun hc =>
    hc.deliver (fun s hs => List.mem_append_left _ hs) hreached
  obtain ⟨hpos, hmoves⟩ := hok.moves read rfl
  have hfloor : (read.posFor kept).floor = handle.floor := by
    show read.pos.floor = handle.floor
    rw [hpos]
    rfl
  refine ⟨hreached, fun b hb => ?_, fun fl hfl => more (h.flights fl (mem_eraseIdx hfl)), fun fl hfl r hr k => ?_⟩
  · rcases stored_commit c hok (read.advanceFor kept).seq (read.advanceFor kept).lateMark now with
      heq | ⟨b₀, hb₀, hseq, hmark, hmoved⟩ | ⟨-, hback⟩
    · exact more (h.stored b (heq.symm.trans hb))
    · -- it lands: the read's own position, under the bookmark's floor
      obtain rfl := Option.some.inj (hb.symm.trans hmoved)
      have habove := hland ⟨handle, some read⟩ b₀ hi hb₀ hseq hmark
      have hbelow : b₀.floor ≤ (read.posFor kept).seq :=
        ((h.stored b₀ hb₀).floor_le.trans hseq.le).trans (hmoves kept).1
      exact hread.raise_floor (hfloor.le.trans habove) hbelow
    · obtain rfl := Option.some.inj (hb.symm.trans hback)
      have hpos' : (⟨(read.advanceFor kept).seq, (read.advanceFor kept).lateMark, handle.floor⟩ : CursorPos) =
          read.posFor kept := by
        rw [← hfloor]
        rfl
      show Covers P c.ring ⟨(read.advanceFor kept).seq, (read.advanceFor kept).lateMark, handle.floor⟩ _
      rw [hpos']
      exact hread
  · refine (h.reads fl (mem_eraseIdx hfl) r hr k).deliver (fun s hs => ?_) fun s hs => ?_
    · rcases List.mem_append.mp hs with hs | hs
      · exact List.mem_append_left _ (List.mem_append_left _ hs)
      · exact List.mem_append_right _ hs
    · rcases List.mem_append.mp hs with hs | hs
      · exact hreached s hs
      · have hr' := h.reads fl (mem_eraseIdx hfl) r hr k
        exact ⟨hr'.top s (List.mem_append_right _ hs), hr'.reached s (List.mem_append_right _ hs)⟩

/-- Every action keeps the cursor covered, if it lands no commit on a bookmark
created below the read's floor. -/
theorem Covered.step {F : Option ParsedFilter → Prop} {c' : Overlap} {a : CursorAct}
    (h : Covered session name (SelectedByAll E F) c) (hsound : Sound session name c) (huses : Uses F a)
    (hland : LandsAbove session name c a) (hs : Overlap.step E session name now c a = some c') :
    Covered session name (SelectedByAll E F) c' := by
  cases a with
  | write op =>
    obtain rfl := Option.some.inj hs
    have hev := hsound.wf.evolves op
    refine ⟨fun s hs => ⟨(h.reached s hs).1, ?_⟩, fun b hb => (h.stored b hb).evolve hev,
      fun fl hfl => (h.flights fl hfl).evolve hev, fun fl hfl read hr k => (h.reads fl hfl read hr k).evolve hev⟩
    rcases (h.reached s hs).2 with ⟨e, he, rfl⟩ | hlost
    · exact (hev.kept_or_lost e he).imp_left fun hk => ⟨e, hk, rfl⟩
    · exact Or.inr (hlost.trans hev.lost_mono)
  | begin m =>
    simp only [Overlap.step] at hs
    split_ifs at hs with hm
    obtain rfl := Option.some.inj hs
    exact h.begin hm
  | read i count filter =>
    simp only [Overlap.step] at hs
    split at hs
    · rename_i handle hi
      obtain rfl := Option.some.inj hs
      have hin := List.mem_of_getElem? hi
      refine ⟨h.reached, h.stored, fun fl hfl => ?_, fun fl hfl read hr k => ?_⟩
      · rcases mem_set hfl with rfl | hfl
        · exact h.flights ⟨handle, none⟩ hin
        · exact h.flights fl hfl
      · rcases mem_set hfl with rfl | hfl
        · obtain rfl := Option.some.inj hr
          exact (h.flights _ hin).advance hsound.wf (selects_of_uses huses handle.cursorPos) k
        · exact h.reads fl hfl read hr k
    · simp at hs
  | commit i kept =>
    simp only [Overlap.step] at hs
    split at hs
    · rename_i handle read hi
      obtain rfl := Option.some.inj hs
      exact h.commit hsound hland hi
    · simp at hs
  | abandon i =>
    obtain rfl := Option.some.inj hs
    exact ⟨h.reached, h.stored, fun fl hfl => h.flights fl (mem_eraseIdx hfl),
      fun fl hfl => h.reads fl (mem_eraseIdx hfl)⟩
  | sweep lost =>
    obtain rfl := Option.some.inj hs
    refine ⟨h.reached, fun b hb => h.stored b ?_, h.flights, h.reads⟩
    have hkept : (c.store.retain _).get? (qualify session name) = some b := hb
    rw [BookmarkStore.get?_retain, Option.filter_eq_some_iff] at hkept
    exact hkept.1
  | add seq m description replace =>
    simp only [Overlap.step] at hs
    split_ifs at hs with hm
    split at hs
    · rename_i b existed store hadd
      obtain rfl := Option.some.inj hs
      obtain ⟨hget, hpos⟩ := BookmarkStore.addAt_get? hadd
      refine ⟨h.reached, fun b' hb' => ?_, h.flights, h.reads⟩
      obtain rfl := Option.some.inj (hget.symm.trans hb')
      rw [hpos]
      exact covers_new hm h.reached
    · obtain rfl := Option.some.inj hs
      exact h

end covered

theorem sound_start (cap : ℕ) (hcap : cap ≤ u64Max) : Sound session name (start cap hcap) :=
  ⟨wf_new cap hcap, fun _ hfl => absurd hfl List.not_mem_nil⟩

theorem covered_start (P : LogEntry → Prop) (cap : ℕ) (hcap : cap ≤ u64Max) :
    Covered session name P (start cap hcap) where
  reached _ hs := absurd hs List.not_mem_nil
  stored b hb := by simp [Overlap.stored, start, BookmarkStore.new, BookmarkStore.get?] at hb
  flights _ hfl := absurd hfl List.not_mem_nil
  reads _ hfl := absurd hfl List.not_mem_nil

end Overlap

open Overlap

/-- **Overlapping reads of one cursor.** In every state of every run: a stored
position never moves back except by an add; a commit leaves a bookmark alone
that does not stand where its read began; and, unless a commit landed on a
bookmark created below its read's floor, every held record that all the reads'
filters select and that the position has passed (at or below its seq, above
its floor, and with no late number above its mark) was returned by a read. -/
theorem overlapping_reads (E : TextEnv) (F : Option ParsedFilter → Prop) (session : SessionName) (name : String)
    (now : ℤ) (cap : ℕ) (hcap : cap ≤ u64Max) (c : Overlap)
    (hrun : Reach (step E session name now) (fun _ a => Uses F a) (start cap hcap) c) :
    (∀ a c' b b', a.isAdd = false → step E session name now c a = some c' → c.stored session name = some b →
        c'.stored session name = some b' → b.seq ≤ b'.seq ∧ b.lateMark ≤ b'.lateMark) ∧
      (∀ i kept handle read c' b, c.flights[i]? = some ⟨handle, some read⟩ →
        step E session name now c (.commit i kept) = some c' → c.stored session name = some b →
        (b.seq, b.lateMark) ≠ (handle.lowerBound, handle.lateMark) → c'.stored session name = some b) ∧
      (Reach (step E session name now) (fun c a => Uses F a ∧ LandsAbove session name c a) (start cap hcap) c →
        ∀ b, c.stored session name = some b → ∀ e ∈ c.ring.entries, SelectedByAll E F e → b.floor < e.seq →
          e.seq ≤ b.seq → (∀ n, c.ring.lateBySeq.get? e.seq = some n → n ≤ b.lateMark) → e.seq ∈ c.returned) := by
  have hsound : Sound session name c :=
    hrun.invariant (sound_start cap hcap) fun _ _ _ h _ hs => h.step hs
  refine ⟨fun a c' b b' ha hs hb hb' => ?_, fun i kept handle read c' b hi hs hb hne => ?_,
    fun hclean b hb e he hP hfloor hle hmark => ?_⟩
  · obtain ⟨h1, h2, -⟩ := hsound.never_back ha hs hb hb'
    exact ⟨h1, h2⟩
  · simp only [step, hi] at hs
    obtain rfl := Option.some.inj hs
    have hok := hsound.flights _ (List.mem_of_getElem? hi)
    rcases stored_commit c hok (read.advanceFor kept).seq (read.advanceFor kept).lateMark now with
      heq | ⟨b₀, hb₀, hseq, hm, -⟩ | ⟨hnone, -⟩
    · exact heq.trans hb
    · obtain rfl := Option.some.inj (hb.symm.trans hb₀)
      exact absurd (Prod.ext hseq hm) hne
    · rw [hb] at hnone
      simp at hnone
  · have hboth : Sound session name c ∧ Covered session name (SelectedByAll E F) c :=
      hclean.invariant (I := fun c => Sound session name c ∧ Covered session name (SelectedByAll E F) c)
        ⟨sound_start cap hcap, covered_start _ cap hcap⟩
        fun _ _ _ h hg hs => ⟨h.1.step hs, h.2.step h.1 hg.1 hg.2 hs⟩
    rcases (hboth.2.stored b hb).complete e he hP hfloor hle with hD | ⟨n, hn, hlt⟩
    · exact hD
    · have := hmark n hn
      simp only [Bookmark.pos] at hlt
      omega

/-- A session for the runs below. -/
def readerSession : SessionName := ⟨"s", noSlash_s⟩

/-- Two overlapping reads of one record: the second commit changes nothing. -/
theorem overlapping_reads_two : ∃ c, Reach (step .ascii readerSession "c" 0) (fun _ a => Uses (fun _ => True) a)
    (start 2 (by decide)) c ∧ (c.stored readerSession "c").map Bookmark.seq = some 5 ∧
    ∀ c' b', step .ascii readerSession "c" 0 c (.commit 0 1) = some c' → c'.stored readerSession "c" = some b' →
      5 ≤ b'.seq := by
  have hgood : ∀ (_ : Overlap) (a : CursorAct), Uses (fun _ => True) a := fun _ a => by cases a <;> trivial
  have hrun : Reach (step .ascii readerSession "c" 0) (fun _ a => Uses (fun _ => True) a) (start 2 (by decide)) _ :=
    reach_guarded (g := fun _ _ => true) (fun s a _ => hgood s a) [.write (.append (.blank 5)), .begin 0, .begin 0,
      .read 0 10 none, .read 1 10 none, .commit 0 1] .start rfl
  refine ⟨_, hrun, by decide, fun c' b' hs hb' => ?_⟩
  exact ((overlapping_reads .ascii _ readerSession "c" 0 2 (by decide) _ hrun).1 _ c' _ b' rfl hs rfl hb').1

/-- By design a sweep takes a cursor's position with it, and the next read
starts at 0 again; and a read passes the records its filter does not select. -/
theorem cursor_moves_back_and_passes :
    (∃ c c', runActs (step .ascii readerSession "c" 0) (start 1 (by decide))
        [.write (.append (.blank 9)), .write (.append (.blank 20)), .add 5 0 none false] = some c ∧
      runActs (step .ascii readerSession "c" 0) c [.sweep 10, .begin 0] = some c' ∧
      (c.stored readerSession "c").map Bookmark.seq = some 5 ∧
      (c'.stored readerSession "c").map Bookmark.seq = some 0) ∧
    ∃ c, runActs (step .ascii readerSession "c" 0) (start 2 (by decide))
        [.write (.append (.blank 1)), .write (.append { LogEntry.blank 2 with level := .error }), .begin 0,
          .read 0 10 (some (.qualifiers [.levelFilter .gte .error])), .commit 0 1] = some c ∧
      (c.stored readerSession "c").map Bookmark.seq = some 2 ∧ c.ring.entries.map LogEntry.seq = [1, 2] ∧
      c.returned = [2] := by
  refine ⟨⟨_, _, rfl, rfl, by decide, by decide⟩, ⟨_, rfl, by decide, by decide, by decide⟩⟩

end Logmon
