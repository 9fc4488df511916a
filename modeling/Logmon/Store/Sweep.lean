/-
# Sweeps and cursors

A sweep of `store/bookmarks.rs` removes a cursor once both stores have lost
the record after its position, and the next read of the cursor creates it
again at 0. Two runs that differ only in their sweeps deliver the same
(`sweeps_are_transparent`).

The two cursors are twins over the one ring (`Twin`): each stands below the
loss floor, where the ring holds nothing at or below its position, or they
agree in all that the ring can still show. A read delivers the same from both
and leaves twins (`Twin.read`), and a sweep of one leaves twins, too.

Key definitions: `Twin`, `SweepRun`, `SweepRun.step`, `deliveries`.
Key theorems: `Twin.candidates`, `Twin.posFor`, `sweeps_are_transparent`.
-/
import Logmon.Store.Bookmarks
import Logmon.Store.Cursor

namespace Logmon

open Lib

namespace InMemoryStore

variable {E : TextEnv} {r r' : InMemoryStore} {a b : CursorPos} {count : ℕ} {filter : Option ParsedFilter}

/-- Two positions a ring cannot tell apart: both are below the loss floor, or
they differ at most in floors that are. -/
structure Twin (r : InMemoryStore) (a b : CursorPos) : Prop where
  marks : a.lateMark ≤ r.lateCounter ∧ b.lateMark ≤ r.lateCounter
  floors : a.floor ≤ a.seq ∧ b.floor ≤ b.seq
  same : (a.seq < r.lostBelow ∧ b.seq < r.lostBelow) ∨
    (a.seq = b.seq ∧ a.lateMark = b.lateMark ∧
      (a.floor = b.floor ∨ a.floor < r.lostBelow ∧ b.floor < r.lostBelow))

theorem Twin.refl (hmark : a.lateMark ≤ r.lateCounter) (hfloor : a.floor ≤ a.seq) : Twin r a a :=
  ⟨⟨hmark, hmark⟩, ⟨hfloor, hfloor⟩, .inr ⟨rfl, rfl, .inl rfl⟩⟩

/-- Writers do not part twins. -/
theorem Twin.evolve (h : Twin r a b) (hev : r.Evolves r') : Twin r' a b := by
  have hlost := hev.lost_mono
  have hcount := hev.counter_mono
  obtain ⟨⟨h1, h2⟩, hfloors, hsame⟩ := h
  refine ⟨⟨le_trans h1 hcount, le_trans h2 hcount⟩, hfloors, ?_⟩
  rcases hsame with ⟨h3, h4⟩ | ⟨h3, h4, h5⟩
  · exact .inl ⟨lt_of_lt_of_le h3 hlost, lt_of_lt_of_le h4 hlost⟩
  · exact .inr ⟨h3, h4, h5.imp_right fun h => ⟨lt_of_lt_of_le h.1 hlost, lt_of_lt_of_le h.2 hlost⟩⟩

/-- The loss floor is a `u64`. -/
theorem WF.lostBelow_apply_le (hwf : r.WF) (hle : r.lostBelow ≤ u64Max) (op : RingOp) :
    (r.apply op).lostBelow ≤ u64Max := by
  have hgone : ∀ gone, lostAfter r.lostBelow gone ≤ u64Max := fun gone => lostAfter_le hle fun e _ => satAdd_le _ _
  cases op with
  | append e =>
    show (r.append e).lostBelow ≤ u64Max
    rw [hwf.append_eq_offer, offer_lostBelow]
    exact hgone _
  | insertSorted batch =>
    show (r.insertSorted batch).lostBelow ≤ u64Max
    rw [hwf.insertSorted_eq_offer, offer_lostBelow]
    exact hgone _
  | clear =>
    show r.clearLocked.lostBelow ≤ u64Max
    rw [clearLocked_eq hwf.asc]
    exact hgone _
  | clearThrough n =>
    show r.clearLocked.lostBelow ≤ u64Max
    rw [clearLocked_eq hwf.asc]
    exact hgone _

theorem WF.lostBelow_run_le : ∀ (ops : List RingOp) {r : InMemoryStore}, r.WF → r.lostBelow ≤ u64Max →
    (r.run ops).lostBelow ≤ u64Max
  | [], _, _, hle => hle
  | op :: ops, _, hwf, hle => WF.lostBelow_run_le ops (hwf.apply op) (hwf.lostBelow_apply_le hle op)

/-- Below the loss floor a cursor has no late part, -/
theorem WF.lateCandidates_of_below (hwf : r.WF) (ha : a.seq < r.lostBelow) :
    lateCandidates E r filter a = [] := by
  refine List.eq_nil_iff_forall_not_mem.mpr fun p hp => ?_
  obtain ⟨-, -, -, hheld, -, -, -, hle⟩ := hwf.of_mem_lateCandidates hp
  have := hwf.lost _ hheld
  omega

/-- and every match the ring holds in its normal part. -/
theorem WF.normalCandidates_of_below (hwf : r.WF) (ha : a.seq < r.lostBelow) (hb : b.seq < r.lostBelow) :
    normalCandidates E r (filterAt filter a.seq) a = normalCandidates E r (filterAt filter b.seq) b := by
  unfold normalCandidates
  congr 1
  refine List.filter_congr fun e he => ?_
  have hlost := hwf.lost e he
  rw [matchesOpt_filterAt_congr filter (a := a.seq) (b := b.seq) (by omega) (by omega),
    decide_eq_true (show a.seq < e.seq by omega), decide_eq_true (show b.seq < e.seq by omega)]

/-- A floor the loss floor has passed keeps nothing back. -/
theorem WF.lateCandidates_floor (hwf : r.WF) (hseq : a.seq = b.seq) (hmark : a.lateMark = b.lateMark)
    (ha : a.floor < r.lostBelow) (hb : b.floor < r.lostBelow) :
    lateCandidates E r filter a = lateCandidates E r filter b := by
  unfold lateCandidates
  rw [hmark]
  refine List.filterMap_congr fun p hp => ?_
  obtain ⟨hget, -⟩ := OrdMap.mem_above.mp (List.fst_mem_of_mem_zipIdx hp)
  obtain ⟨e, he, heq⟩ := hwf.lateHeld _ _ ((hwf.late.inverse p.1.1 p.1.2).mp hget)
  have hlost := hwf.lost e he
  have hcond : (a.seq < p.1.2 ∨ p.1.2 ≤ a.floor) ↔ (b.seq < p.1.2 ∨ p.1.2 ≤ b.floor) := by omega
  simp only [lateCandidate, hcond]

/-- **Twins see the same candidates.** -/
theorem Twin.candidates (h : Twin r a b) (hwf : r.WF) (filter : Option ParsedFilter) :
    lateCandidates E r (filterAt filter a.seq) a = lateCandidates E r (filterAt filter b.seq) b ∧
      normalCandidates E r (filterAt filter a.seq) a = normalCandidates E r (filterAt filter b.seq) b := by
  rcases h.same with ⟨ha, hb⟩ | ⟨hseq, hmark, hfloor⟩
  · exact ⟨by rw [hwf.lateCandidates_of_below ha, hwf.lateCandidates_of_below hb],
      hwf.normalCandidates_of_below ha hb⟩
  · rw [hseq]
    refine ⟨?_, by unfold normalCandidates; rw [hseq]⟩
    rcases hfloor with hfloor | ⟨ha, hb⟩
    · have hab : a = b := by
        cases a
        cases b
        simp_all
      rw [hab]
    · exact hwf.lateCandidates_floor hseq hmark ha hb

/-- A read of twins delivers the same. -/
theorem Twin.keptEntries (h : Twin r a b) (hwf : r.WF) (filter : Option ParsedFilter) (count k : ℕ) :
    (cursorRead E r count (filterAt filter a.seq) a).keptEntries k =
      (cursorRead E r count (filterAt filter b.seq) b).keptEntries k := by
  obtain ⟨h1, h2⟩ := h.candidates (E := E) hwf filter
  rw [keptEntries_eq hwf.late, keptEntries_eq hwf.late, h1, h2]

/-- Below the loss floor, the position a commit moves to. -/
theorem WF.posFor_of_below (hwf : r.WF) (ha : a.seq < r.lostBelow) (hmark : a.lateMark ≤ r.lateCounter) (count k : ℕ) :
    (cursorRead E r count (filterAt filter a.seq) a).posFor k = if count = 0 then a else
      ⟨(((normalCandidates E r (filterAt filter a.seq) a).take (min k count)).map fun p => p.1.seq).foldl max a.seq,
        r.lateCounter, a.floor⟩ := by
  have hnil : lateCandidates E r (filterAt filter a.seq) a = [] := hwf.lateCandidates_of_below ha
  split
  · rename_i hc
    have hpart : ¬ PassesLate E r count (filterAt filter a.seq) a k := fun h => by
      have := h.1
      omega
    rw [(commit_part hwf.late hpart).2, hnil, List.take_nil]
    rfl
  · rename_i hc
    have hall : PassesLate E r count (filterAt filter a.seq) a k := by
      refine ⟨?_, ?_⟩
      · rw [hnil]
        exact Nat.pos_of_ne_zero hc
      · rw [hnil]
        exact Nat.zero_le _
    rw [(commit_all hwf.late hall).2, hnil, max_eq_left hmark]
    rfl

theorem foldl_max_congr {l : List ℕ} {x y : ℕ} (hx : ∀ n ∈ l, x < n) (hy : ∀ n ∈ l, y < n) (hne : l ≠ []) :
    l.foldl max x = l.foldl max y := by
  obtain ⟨hx1, -, hxub⟩ := foldl_max_spec l x
  obtain ⟨hy1, -, hyub⟩ := foldl_max_spec l y
  obtain ⟨n, hn⟩ := List.exists_mem_of_ne_nil l hne
  have h1 := hxub n hn
  have h2 := hyub n hn
  have h3 := hx n hn
  have h4 := hy n hn
  have hxm : l.foldl max x ∈ l := hx1.resolve_left (by omega)
  have hym : l.foldl max y ∈ l := hy1.resolve_left (by omega)
  exact le_antisymm (hyub _ hxm) (hxub _ hym)

/-- **A read leaves twins.** -/
theorem Twin.posFor (h : Twin r a b) (hwf : r.WF) (filter : Option ParsedFilter) (count k : ℕ) :
    Twin r ((cursorRead E r count (filterAt filter a.seq) a).posFor k)
      ((cursorRead E r count (filterAt filter b.seq) b).posFor k) := by
  have hmove : ∀ {c : CursorPos}, c.lateMark ≤ r.lateCounter → c.floor ≤ c.seq →
      ((cursorRead E r count (filterAt filter c.seq) c).posFor k).lateMark ≤ r.lateCounter ∧
      ((cursorRead E r count (filterAt filter c.seq) c).posFor k).floor ≤
        ((cursorRead E r count (filterAt filter c.seq) c).posFor k).seq := by
    intro c hm hf
    obtain ⟨h1, -, h3⟩ := hwf.posFor_bounds E count (filterAt filter c.seq) c k
    exact ⟨le_trans h3 (max_le le_rfl hm), le_trans hf h1⟩
  obtain ⟨ma, fa⟩ := hmove h.marks.1 h.floors.1
  obtain ⟨mb, fb⟩ := hmove h.marks.2 h.floors.2
  refine ⟨⟨ma, mb⟩, ⟨fa, fb⟩, ?_⟩
  obtain ⟨hlate, hnormal⟩ := h.candidates (E := E) hwf filter
  rcases h.same with ⟨ha, hb⟩ | ⟨hseq, hmark, hfloor⟩
  · -- nothing moves, or both move to the highest record delivered
    have hfl := h.floors
    rw [hwf.posFor_of_below ha h.marks.1, hwf.posFor_of_below hb h.marks.2, hnormal]
    split
    · exact .inl ⟨ha, hb⟩
    · set taken := ((normalCandidates E r (filterAt filter b.seq) b).take (min k count)).map fun p => p.1.seq with ht
      by_cases hne : taken = []
      · rw [hne]
        exact .inl ⟨ha, hb⟩
      · have habove : ∀ n ∈ taken, r.lostBelow ≤ n := by
          intro n hn
          obtain ⟨p, hp, rfl⟩ := List.mem_map.mp hn
          exact hwf.lost _ (mem_normalCandidates.mp (List.mem_of_mem_take hp)).1
        refine .inr ⟨foldl_max_congr (fun n hn => ?_) (fun n hn => ?_) hne, rfl, .inr ⟨?_, ?_⟩⟩
        · exact lt_of_lt_of_le ha (habove n hn)
        · exact lt_of_lt_of_le hb (habove n hn)
        · exact lt_of_le_of_lt hfl.1 ha
        · exact lt_of_le_of_lt hfl.2 hb
  · right
    have hpass : PassesLate E r count (filterAt filter a.seq) a k ↔ PassesLate E r count (filterAt filter b.seq) b k := by
      unfold PassesLate
      rw [hlate]
    by_cases hall : PassesLate E r count (filterAt filter b.seq) b k
    · rw [(commit_all hwf.late (hpass.mpr hall)).2, (commit_all hwf.late hall).2, hlate, hnormal, hseq, hmark]
      exact ⟨rfl, rfl, hfloor⟩
    · rw [(commit_part hwf.late (mt hpass.mp hall)).2, (commit_part hwf.late hall).2, hlate, hseq, hmark]
      exact ⟨rfl, rfl, hfloor⟩

end InMemoryStore

/-! ### Runs with and without sweeps -/

/-- The log ring, the span store's loss floor and the bookmarks. -/
structure SweepRun where
  ring : InMemoryStore
  spanLost : ℕ
  store : BookmarkStore

inductive SweepAct
  | write (op : RingOp)
  /-- The span store loses everything below `n`. -/
  | spanLoss (n : ℕ)
  /-- A read of the cursor that asks for `count` records and keeps `kept`. -/
  | read (count : ℕ) (filter : Option ParsedFilter) (kept : ℕ) (now : ℤ)
  | sweep

def SweepAct.isSweep : SweepAct → Bool
  | .sweep => true
  | _ => false

variable (E : TextEnv) (session : SessionName) (name : String)

/-- A whole read of a cursor: begin, read, commit. -/
def readCursor (r : InMemoryStore) (s : BookmarkStore) (count : ℕ) (filter : Option ParsedFilter) (kept : ℕ) (now : ℤ) :
    BookmarkStore × List LogEntry :=
  let (s, c) := s.cursorReadAndAdvanceAt session name r.lateCounter now
  let read := r.cursorRead E count (filterAt filter c.lowerBound) c.cursorPos
  let adv := read.advanceFor kept
  (s.commit c adv.seq adv.lateMark now, read.keptEntries kept)

namespace SweepRun

/-- One action, and what it delivers if it is a read. -/
def step (s : SweepRun) : SweepAct → SweepRun × Option (List LogEntry)
  | .write op => ({ s with ring := s.ring.apply op }, none)
  | .spanLoss n => ({ s with spanLost := max s.spanLost n }, none)
  | .read count filter kept now =>
    let (store, delivered) := readCursor E session name s.ring s.store count filter kept now
    ({ s with store }, some delivered)
  | .sweep => ({ s with store := s.store.sweep s.ring.lostBelow s.spanLost }, none)

/-- What the reads of a run deliver, in order. -/
def deliveries (s : SweepRun) : List SweepAct → List (List LogEntry)
  | [] => []
  | a :: as => (s.step E session name a).2.toList ++ deliveries (s.step E session name a).1 as

/-- The start: a ring some writers have filled, and the cursor, added at
`added` or not yet there. -/
def start (capacity : ℕ) (h : capacity ≤ u64Max) (ops : List RingOp) (spanLost : ℕ) (added : Option ℕ) : SweepRun where
  ring := (InMemoryStore.new capacity h).run ops
  spanLost := spanLost
  store := match added with
    | none => .new
    | some seq =>
      match BookmarkStore.new.addAt session name seq ((InMemoryStore.new capacity h).run ops).lateCounter none false 0 with
      | .ok (_, _, s) => s
      | .error _ => .new

end SweepRun

/-- Where a read of the cursor begins: where it stands, or at 0 if it is to
be created. -/
def beginsAt (r : InMemoryStore) (b : Option Bookmark) : CursorPos :=
  match b with
  | some b => b.pos
  | none => ⟨0, r.lateCounter, 0⟩

variable {E session name}

theorem readCursor_delivers (r : InMemoryStore) (s : BookmarkStore) (count : ℕ) (filter : Option ParsedFilter) (kept : ℕ)
    (now : ℤ) : (readCursor E session name r s count filter kept now).2 =
      (r.cursorRead E count (filterAt filter (beginsAt r (s.get? (qualify session name))).seq)
        (beginsAt r (s.get? (qualify session name)))).keptEntries kept := by
  unfold readCursor BookmarkStore.cursorReadAndAdvanceAt
  cases s.get? (qualify session name) <;> rfl

/-- A whole read leaves the cursor where its commit moves it. -/
theorem readCursor_get? (r : InMemoryStore) (s : BookmarkStore) (count : ℕ) (filter : Option ParsedFilter) (kept : ℕ)
    (now : ℤ) : ∃ b, (readCursor E session name r s count filter kept now).1.get? (qualify session name) = some b ∧
      b.pos = (r.cursorRead E count (filterAt filter (beginsAt r (s.get? (qualify session name))).seq)
        (beginsAt r (s.get? (qualify session name)))).posFor kept := by
  set c := (s.cursorReadAndAdvanceAt session name r.lateCounter now).2 with hc
  obtain ⟨b, hget, hcapture, hfrom⟩ := s.cursorReadAndAdvanceAt_get? session name r.lateCounter now
  have hpos : b.pos = beginsAt r (s.get? (qualify session name)) := by
    rcases hfrom with hold | ⟨hnone, hnew⟩
    · rw [hold]
      rfl
    · rw [hnone, hnew]
      rfl
  have hcpos : c.cursorPos = b.pos := by
    rw [hc, hcapture]
    rfl
  have hkey : c.qualifiedName = qualify session name := BookmarkStore.cursorReadAndAdvanceAt_qualifiedName _ _ _ _
  rw [← hpos, ← hcpos]
  set read := r.cursorRead E count (filterAt filter c.cursorPos.seq) c.cursorPos with hread
  have hrun : (readCursor E session name r s count filter kept now).1 =
      (s.cursorReadAndAdvanceAt session name r.lateCounter now).1.commit c (read.advanceFor kept).seq
        (read.advanceFor kept).lateMark now := rfl
  have hbc : b.seq = c.lowerBound ∧ b.lateMark = c.lateMark ∧ b.floor = c.floor := by
    rw [hc, hcapture]
    exact ⟨rfl, rfl, rfl⟩
  have hcommit := BookmarkStore.get?_commit (s := (s.cursorReadAndAdvanceAt session name r.lateCounter now).1) c
    (read.advanceFor kept).seq (read.advanceFor kept).lateMark now
  rw [show (s.cursorReadAndAdvanceAt session name r.lateCounter now).1.get? c.qualifiedName = some b from hkey ▸ hget] at hcommit
  rw [hrun, ← hkey, hcommit]
  have hposFor : read.posFor kept = ⟨(read.advanceFor kept).seq, (read.advanceFor kept).lateMark, c.floor⟩ := rfl
  split
  · rename_i hsame
    refine ⟨b, rfl, ?_⟩
    rw [hposFor, hsame.1, hsame.2, ← hcpos]
    rfl
  · refine ⟨_, rfl, ?_⟩
    rw [if_pos ⟨hbc.1, hbc.2.1⟩, hposFor, ← hbc.2.2]
    rfl

/-- The cursor of the run without sweeps and of the one with them: both are
there and twins, or neither is there, or the second was swept and the first
stands below the loss floor. -/
def Twins (r : InMemoryStore) : Option Bookmark → Option Bookmark → Prop
  | some a, some b => r.Twin a.pos b.pos
  | some a, none => a.seq < r.lostBelow ∧ a.lateMark ≤ r.lateCounter ∧ a.floor ≤ a.seq
  | none, none => True
  | none, some _ => False

theorem Twins.evolve {r r' : InMemoryStore} {a b : Option Bookmark} (h : Twins r a b) (hev : r.Evolves r') :
    Twins r' a b := by
  cases a with
  | none =>
    cases b with
    | none => trivial
    | some b => exact h
  | some a =>
    cases b with
    | none =>
      obtain ⟨h1, h2, h3⟩ := h
      exact ⟨lt_of_lt_of_le h1 hev.lost_mono, le_trans h2 hev.counter_mono, h3⟩
    | some b => exact InMemoryStore.Twin.evolve h hev

/-- Twins begin their reads as twins. -/
theorem Twins.begin {r : InMemoryStore} {a b : Option Bookmark} (h : Twins r a b) :
    r.Twin (beginsAt r a) (beginsAt r b) := by
  cases a with
  | none =>
    cases b with
    | none => exact .refl le_rfl le_rfl
    | some b => exact h.elim
  | some a =>
    cases b with
    | none =>
      obtain ⟨h1, h2, h3⟩ := h
      exact ⟨⟨h2, le_rfl⟩, ⟨h3, le_rfl⟩, .inl ⟨h1, Nat.lt_of_le_of_lt (Nat.zero_le _) h1⟩⟩
    | some b => exact h

/-- A sweep of the second leaves twins. -/
theorem Twins.sweep {r : InMemoryStore} {a : Option Bookmark} {s : BookmarkStore} {k : String}
    (h : Twins r a (s.get? k)) (hmax : r.lostBelow ≤ u64Max) (spanLost : ℕ) : Twins r a ((s.sweep r.lostBelow spanLost).get? k) := by
  unfold BookmarkStore.sweep
  rw [BookmarkStore.get?_retain]
  cases hb : s.get? k with
  | none =>
    rw [hb] at h
    exact h
  | some b =>
    rw [hb] at h
    cases a with
    | none => exact h.elim
    | some a =>
      have htwin : r.Twin a.pos b.pos := h
      by_cases hev : shouldEvict b.seq r.lostBelow spanLost = true
      · -- the ring has lost the record after the position
        have hlost : satAdd b.seq 1 < r.lostBelow := by
          have := (Bool.and_eq_true _ _ ▸ hev).1
          unfold evictedBelow at this
          by_contra hle
          rw [if_neg hle] at this
          simp at this
        have hbelow : a.seq < r.lostBelow := by
          rcases htwin.same with ⟨ha, -⟩ | ⟨hseq, -, -⟩
          · exact ha
          · have hseq' : a.seq = b.seq := hseq
            unfold satAdd at hlost
            omega
        rw [Option.filter_some, hev]
        exact ⟨hbelow, htwin.marks.1, htwin.floors.1⟩
      · rw [Option.filter_some, Bool.eq_false_iff.mpr hev]
        exact htwin

namespace SweepRun

/-- The two runs: one ring, one span store, twin cursors. -/
structure Related (session : SessionName) (name : String) (x y : SweepRun) : Prop where
  wf : x.ring.WF
  lost_le : x.ring.lostBelow ≤ u64Max
  ring : x.ring = y.ring
  spanLost : x.spanLost = y.spanLost
  cursor : Twins x.ring (x.store.get? (qualify session name)) (y.store.get? (qualify session name))

variable {x y : SweepRun}

/-- An action that is not a sweep delivers the same and keeps them related. -/
theorem Related.step (h : Related session name x y) {a : SweepAct} (ha : a.isSweep = false) :
    (x.step E session name a).2 = (y.step E session name a).2 ∧
      Related session name (x.step E session name a).1 (y.step E session name a).1 := by
  obtain ⟨hwf, hmax, hring, hspan, hcursor⟩ := h
  cases a with
  | write op =>
    exact ⟨rfl, hwf.apply op, hwf.lostBelow_apply_le hmax op, congrArg (InMemoryStore.apply · op) hring, hspan,
      hcursor.evolve (hwf.evolves op)⟩
  | spanLoss n => exact ⟨rfl, hwf, hmax, hring, congrArg (max · n) hspan, hcursor⟩
  | read count filter kept now =>
    have htwin := hcursor.begin
    have hkept := htwin.keptEntries (E := E) hwf filter count kept
    have hpos := htwin.posFor (E := E) hwf filter count kept
    obtain ⟨b, hb, hbpos⟩ := @readCursor_get? E session name x.ring x.store count filter kept now
    obtain ⟨b', hb', hbpos'⟩ := @readCursor_get? E session name x.ring y.store count filter kept now
    refine ⟨?_, hwf, hmax, hring, hspan, ?_⟩
    · show some (readCursor E session name x.ring x.store count filter kept now).2 =
        some (readCursor E session name y.ring y.store count filter kept now).2
      rw [← hring, readCursor_delivers, readCursor_delivers, hkept]
    · show Twins x.ring ((readCursor E session name x.ring x.store count filter kept now).1.get? _)
        ((readCursor E session name y.ring y.store count filter kept now).1.get? _)
      rw [← hring, hb, hb']
      show x.ring.Twin b.pos b'.pos
      rw [hbpos, hbpos']
      exact hpos
  | sweep => simp [SweepAct.isSweep] at ha

/-- The run with the sweeps delivers what the one without delivers. -/
theorem Related.deliveries : ∀ (acts : List SweepAct) {x y : SweepRun}, Related session name x y →
    y.deliveries E session name acts = x.deliveries E session name (acts.filter fun a => !a.isSweep)
  | [], _, _, _ => rfl
  | a :: acts, x, y, h => by
    cases ha : a.isSweep with
    | true =>
      obtain rfl : a = .sweep := by
        cases a <;> simp [SweepAct.isSweep] at ha ⊢
      rw [List.filter_cons_of_neg (by simp [ha])]
      have hcursor : Twins x.ring (x.store.get? (qualify session name))
          ((y.store.sweep y.ring.lostBelow y.spanLost).get? (qualify session name)) := by
        rw [← h.ring]
        exact h.cursor.sweep h.lost_le y.spanLost
      exact Related.deliveries acts ⟨h.wf, h.lost_le, h.ring, h.spanLost, hcursor⟩
    | false =>
      obtain ⟨hsame, hnext⟩ := h.step (E := E) ha
      rw [List.filter_cons_of_pos (by simp [ha])]
      simp only [SweepRun.deliveries]
      rw [hsame, Related.deliveries acts hnext]

theorem related_start (capacity : ℕ) (h : capacity ≤ u64Max) (ops : List RingOp) (spanLost : ℕ) (added : Option ℕ) :
    Related session name (start session name capacity h ops spanLost added)
      (start session name capacity h ops spanLost added) := by
  have hwf := InMemoryStore.wf_new capacity h
  refine ⟨hwf.run, InMemoryStore.WF.lostBelow_run_le ops hwf (Nat.zero_le _), rfl, rfl, ?_⟩
  have hnone : Twins ((InMemoryStore.new capacity h).run ops) (BookmarkStore.new.get? (qualify session name))
      (BookmarkStore.new.get? (qualify session name)) := trivial
  cases added with
  | none => exact hnone
  | some seq =>
    simp only [start]
    split
    · rename_i b existed s hadd
      obtain ⟨hget, hpos⟩ := BookmarkStore.addAt_get? hadd
      rw [hget]
      show InMemoryStore.Twin _ b.pos b.pos
      rw [hpos]
      exact .refl le_rfl le_rfl
    · exact hnone

end SweepRun

/-- **A sweep is transparent to cursors.** For every run of writers, span
losses and reads of a cursor, added or created by its first read, sweeps
anywhere between the reads leave what each read delivers as it was. -/
theorem sweeps_are_transparent (E : TextEnv) (session : SessionName) (name : String) (capacity : ℕ)
    (hcap : capacity ≤ u64Max) (ops : List RingOp) (spanLost : ℕ) (added : Option ℕ) (acts : List SweepAct) :
    (SweepRun.start session name capacity hcap ops spanLost added).deliveries E session name acts =
      (SweepRun.start session name capacity hcap ops spanLost added).deliveries E session name
        (acts.filter fun a => !a.isSweep) :=
  SweepRun.Related.deliveries acts (SweepRun.related_start capacity hcap ops spanLost added)

/-- Two records are read, four more push them out of a ring of two, and the
cursor at 2 is swept before the next read. -/
def sweptBetween : List SweepAct :=
  [.write (.append (.blank 1)), .write (.append (.blank 2)), .read 10 none 10 0, .write (.append (.blank 3)),
   .write (.append (.blank 4)), .write (.append (.blank 5)), .write (.append (.blank 6)), .spanLoss 10, .sweep,
   .read 10 none 10 0]

theorem sweeps_are_transparent_swept :
    let s := SweepRun.start ⟨"A", by decide⟩ "c" 2 (by decide) [] 0 none
    (s.deliveries .ascii ⟨"A", by decide⟩ "c" sweptBetween).map (·.map LogEntry.seq) = [[1, 2], [5, 6]] ∧
      s.deliveries .ascii ⟨"A", by decide⟩ "c" sweptBetween =
        s.deliveries .ascii ⟨"A", by decide⟩ "c" (sweptBetween.filter fun a => !a.isSweep) :=
  ⟨by decide, sweeps_are_transparent .ascii ⟨"A", by decide⟩ "c" 2 (by decide) [] 0 none sweptBetween⟩

end Logmon
