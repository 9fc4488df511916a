/-
# Boots that crash

A boot of `load_all`, cut off after any of its renames, and booted again. No
rename replaces a file, so no boot loses one (`loadAll_files`). What a boot
returns is settled by the directory it found (`loadAll_collectors`), so a boot
after it returns the same if every directory on the way has the same winners.

While files are set aside the copies get fewer and the winners stay
(`Shrunk`). While winners are moved, each is at its old path, its staging name
or its canonical name (`Located`), and only copies that could not be set aside
are left beside them. An older one cannot win. One just as recent can, if it
sorts before the staging name and the winner is left there (`Overtaken`): then
a later boot returns another collector (`another_copy_after_crash`).

Key definitions: `Shrunk`, `Located`, `Overtaken`, `bootStep`.
Key theorems: `loadAll_files`, `loadAll_collectors`, `Located.sameWinners`,
`loadAll_passes`, `boot_migration_loses_nothing`.
-/
import Logmon.Collector.Migration
import Logmon.Lib.Reach

namespace Logmon

open Lib

variable {B W : Type} {env : PersistEnv B W} {works : FileName → FileName → Bool} {d0 d d' : CollectorDir B}
  {s : Disk FileName (DirFile B)} {x y : FileCopy W} {key : String × String}

/-! ### One rename -/

/-- A file is set aside under a name that is free and no `.json`, or left. -/
theorem setAside_cases (works : FileName → FileName → Bool) {suffix : String} (hdot : byte '.' ∉ ascii suffix)
    (hj : ascii suffix ≠ ascii "json") (path : FileName) (s : Disk FileName (DirFile B)) :
    (setAside works suffix path s).2 = s ∨
    ∃ f dst, s.dir.get? path = some f ∧ s.dir.get? dst = none ∧ isJson dst = false ∧
      (setAside works suffix path s).2 = ⟨moved s.dir path dst f, s.dir :: s.past⟩ := by
  obtain ⟨hfree, i, hi⟩ := firstFree_spec s.dir (asideName_injective path suffix)
  unfold setAside
  dsimp only
  rcases s.rename_cases works path (firstFree s.dir (asideName path suffix)) with ⟨heq, -⟩ | ⟨f, hf, heq⟩
  · rw [heq]
    exact .inl rfl
  · rw [heq]
    refine .inr ⟨f, _, hf, hfree, ?_, rfl⟩
    rw [hi]
    exact not_isJson_asideName path hdot hj i

theorem renameNoClobber_cases (works : FileName → FileName → Bool) (src dst : FileName) (s : Disk FileName (DirFile B)) :
    renameNoClobber works src dst s = (false, s) ∨
    ∃ f, s.dir.get? src = some f ∧ s.dir.get? dst = none ∧
      renameNoClobber works src dst s = (true, ⟨moved s.dir src dst f, s.dir :: s.past⟩) := by
  unfold renameNoClobber Disk.taken
  split
  · exact .inl rfl
  · rename_i hfree
    rcases s.rename_cases works src dst with ⟨heq, -⟩ | ⟨f, hf, heq⟩
    · exact .inl heq
    · refine .inr ⟨f, hf, ?_, heq⟩
      simpa using hfree

/-! ### Every file is kept -/

section Always

variable {P : CollectorDir B → Prop}
  (hP : ∀ d src dst f, P d → d.get? src = some f → d.get? dst = none → P (moved d src dst f))

include hP

theorem setAside_always (h : s.Always P) (works : FileName → FileName → Bool) (suffix : String) (path : FileName) :
    (setAside works suffix path s).2.Always P := by
  have hfree := (firstFree_spec s.dir (asideName_injective path suffix)).1
  unfold setAside
  dsimp only
  rcases s.rename_cases works path (firstFree s.dir (asideName path suffix)) with ⟨heq, -⟩ | ⟨f, hf, heq⟩
  · rw [heq]
    exact h
  · rw [heq]
    exact h.next (hP _ _ _ _ h.now hf hfree)

theorem renameNoClobber_always (h : s.Always P) (works : FileName → FileName → Bool) (src dst : FileName) :
    (renameNoClobber works src dst s).2.Always P := by
  rcases renameNoClobber_cases works src dst s with heq | ⟨f, hf, hfree, heq⟩
  · rw [heq]
    exact h
  · rw [heq]
    exact h.next (hP _ _ _ _ h.now hf hfree)

/-- What every move to a free name keeps, a boot keeps all along. -/
theorem loadAll_always (h : P d) : (loadAll env works d).1.Always P := by
  have hread : (readAll env works d).disk.Always P := by
    refine List.foldlRecOn (motive := fun x : Reading B W => x.disk.Always P) _ _ (Disk.always_start h) fun x hx path _ => ?_
    unfold readStep
    split
    · exact hx
    · have := setAside_always hP hx works "corrupt" path
      split
      · rename_i heq
        rw [heq] at this
        exact this
      · rename_i heq
        rw [heq] at this
        exact this
  have hsettle : (settleAll works (readAll env works d)).disk.Always P := by
    refine List.foldlRecOn (motive := fun x : Settling B W => x.disk.Always P) _ _ hread fun x hx key _ => ?_
    unfold settleStep
    split
    · exact hx
    · rename_i w stale _
      refine List.foldlRecOn (motive := fun y : Disk FileName (DirFile B) × List (ℕ × FileName) => y.1.Always P) stale
        (setAsideStale works x.winners.length) hx fun y hy z _ => ?_
      have := setAside_always hP hy works "superseded" z.path
      unfold setAsideStale
      split
      · rename_i heq
        rw [heq] at this
        exact this
      · rename_i heq
        rw [heq] at this
        exact this
  have hstage : (stageAll works (settleAll works (readAll env works d))).disk.Always P := by
    refine List.foldlRecOn (motive := fun x : Staging B => x.disk.Always P) _ _ hsettle fun x hx q _ => ?_
    have := renameNoClobber_always hP hx works q.1.path (stagingPath q.1.canonical)
    unfold stageStep
    split
    · exact hx
    · dsimp only
      split
      · exact hx
      · split
        · rename_i heq
          rw [heq] at this
          exact this
        · rename_i heq
          rw [heq] at this
          exact this
  refine List.foldlRecOn (motive := fun x : Placing B => x.disk.Always P) _ _ hstage fun x hx q _ => ?_
  unfold placeStep
  split
  · exact hx
  · rename_i w _
    have h1 := renameNoClobber_always hP hx works q.2 w.canonical
    split
    · rename_i heq
      rw [heq] at h1
      exact h1
    · rename_i disk heq
      rw [heq] at h1
      have h2 := renameNoClobber_always hP h1 works q.2 w.path
      split
      · rename_i heq
        rw [heq] at h2
        exact h2
      · rename_i heq
        rw [heq] at h2
        exact h2

end Always

/-- The same files, wherever they are. -/
def SameFiles (d d' : CollectorDir B) : Prop := (d'.entries.map Prod.snd).Perm (d.entries.map Prod.snd)

/-- **No boot loses a file**, wherever it is cut off. -/
theorem loadAll_files (env : PersistEnv B W) (works : FileName → FileName → Bool) (d : CollectorDir B) :
    (loadAll env works d).1.Always (SameFiles d) :=
  loadAll_always (fun _ _ _ _ h hsrc hdst => (perm_moved hsrc hdst).trans h) (List.Perm.refl _)

/-! ### Copies set aside -/

/-- The copies are fewer, and the winners are among them. -/
structure Shrunk (env : PersistEnv B W) (d0 d : CollectorDir B) : Prop where
  sub : ∀ x ∈ copiesOf env d, x ∈ copiesOf env d0
  keep : ∀ key x, Wins env d0 key x → x ∈ copiesOf env d

theorem Shrunk.sameWinners (h : Shrunk env d0 d) : SameWinners env d d0 := by
  have hwins : ∀ {key x}, Wins env d0 key x → Wins env d key x := fun hw =>
    ⟨h.keep _ _ hw, hw.key_eq, fun y hy => hw.first y (h.sub y hy)⟩
  intro key c
  constructor
  · rintro ⟨x, hx, rfl⟩
    obtain ⟨z, hz⟩ := exists_wins (h.sub x hx.mem)
    rw [hx.key_eq] at hz
    exact ⟨z, hz, congrArg FileCopy.file ((hwins hz).unique hx)⟩
  · rintro ⟨x, hx, rfl⟩
    exact ⟨x, hwins hx, rfl⟩

theorem mem_copiesOf_aside {src dst : FileName} {f : DirFile B} (hdst : d.get? dst = none) (hj : isJson dst = false) :
    x ∈ copiesOf env (moved d src dst f) ↔ x ∈ copiesOf env d ∧ x.path ≠ src := by
  rw [mem_copiesOf, mem_copiesOf, get?_moved]
  by_cases h1 : x.path = dst
  · rw [if_pos h1, h1, hj, hdst]
    simp
  · rw [if_neg h1]
    by_cases h2 : x.path = src
    · rw [if_pos h2]
      simp [h2]
    · rw [if_neg h2]
      simp [h2]

/-- What setting a file aside does to the copies. -/
theorem setAside_shrinks (h : s.Always (Shrunk env d0)) {suffix : String} (hdot : byte '.' ∉ ascii suffix)
    (hj : ascii suffix ≠ ascii "json") {path : FileName} (hpath : ∀ key x, Wins env d0 key x → x.path ≠ path) :
    (setAside works suffix path s).2.Always (Shrunk env d0) ∧
    ∀ p, p ≠ path → s.dir.get? p ≠ none → (setAside works suffix path s).2.dir.get? p = s.dir.get? p := by
  rcases setAside_cases works hdot hj path s with heq | ⟨f, dst, hf, hfree, hdst, heq⟩
  · rw [heq]
    exact ⟨h, fun _ _ _ => rfl⟩
  · rw [heq]
    refine ⟨h.next ⟨fun x hx => ?_, fun key x hx => ?_⟩, fun p hp hsome => ?_⟩
    · exact h.now.sub x ((mem_copiesOf_aside hfree hdst).mp hx).1
    · exact (mem_copiesOf_aside hfree hdst).mpr ⟨h.now.keep key x hx, hpath key x hx⟩
    · show (moved s.dir path dst f).get? p = s.dir.get? p
      rw [get?_moved, if_neg hp, if_neg]
      rintro rfl
      exact hsome hfree

/-! ### What is read -/

/-- What reading the listed files gives, whatever is set aside meanwhile. -/
theorem readSteps (env : PersistEnv B W) (works : FileName → FileName → Bool) : ∀ (paths : List FileName)
    {x : Reading B W}, paths.Nodup → (∀ p ∈ paths, isJson p = true ∧ d0.get? p ≠ none ∧ x.disk.dir.get? p = d0.get? p) →
    x.disk.Always (Shrunk env d0) →
    (paths.foldl (readStep env works) x).disk.Always (Shrunk env d0) ∧
    (paths.foldl (readStep env works) x).copies =
      x.copies ++ paths.filterMap (copyIn env d0)
  | [], _, _, _, h => ⟨h, (List.append_nil _).symm⟩
  | p :: paths, x, hnodup, hpaths, h => by
    obtain ⟨hp, hrest⟩ := List.nodup_cons.mp hnodup
    obtain ⟨hjson, hsome, hsame⟩ := hpaths p List.mem_cons_self
    obtain ⟨f, hf⟩ := Option.ne_none_iff_exists'.mp hsome
    rw [List.foldl_cons]
    cases hread : readOne env f with
    | ok c =>
      have hcopy : copyIn env d0 p = some ⟨p, f.modified.getD 0, c⟩ := by
        unfold copyIn
        rw [hf]
        exact copyAt_eq_some.mpr ⟨hjson, hread, rfl, rfl⟩
      have hstep : readStep env works x p = { x with copies := x.copies ++ [⟨p, f.modified.getD 0, c⟩] } := by
        unfold readStep readPath
        rw [hsame, hf]
        dsimp only
        rw [hread]
        rfl
      rw [hstep, List.filterMap_cons_some hcopy]
      obtain ⟨h1, h2⟩ := @readSteps env works paths { x with copies := x.copies ++ [⟨p, f.modified.getD 0, c⟩] } hrest
        (fun q hq => hpaths q (List.mem_cons_of_mem _ hq)) h
      exact ⟨h1, by rw [h2, List.append_assoc]; rfl⟩
    | error reason =>
      have hcopy : copyIn env d0 p = none := by
        unfold copyIn
        rw [hf]
        show copyAt env (p, f) = none
        unfold copyAt
        rw [if_pos hjson, hread]
      have hwinner : ∀ key z, Wins env d0 key z → z.path ≠ p := by
        intro key z hz he
        obtain ⟨-, f', hf', hok, -⟩ := mem_copiesOf.mp hz.mem
        rw [he, hf] at hf'
        obtain rfl := Option.some.inj hf'
        rw [hread] at hok
        cases hok
      obtain ⟨h1, h4⟩ := @setAside_shrinks _ _ _ works d0 _ h "corrupt" (by decide) (by decide) p hwinner
      have hstep : (readStep env works x p).disk = (setAside works "corrupt" p x.disk).2 ∧
          (readStep env works x p).copies = x.copies := by
        unfold readStep readPath
        rw [hsame, hf]
        dsimp only
        rw [hread]
        dsimp only [Except.map]
        split
        · rename_i heq
          rw [heq]
          exact ⟨rfl, rfl⟩
        · rename_i heq
          rw [heq]
          exact ⟨rfl, rfl⟩
      rw [List.filterMap_cons_none hcopy, ← hstep.2]
      refine readSteps env works paths hrest (fun q hq => ?_) (hstep.1 ▸ h1)
      obtain ⟨h5, h6, h7⟩ := hpaths q (List.mem_cons_of_mem _ hq)
      refine ⟨h5, h6, ?_⟩
      rw [hstep.1, h4 q (fun he => hp (he ▸ hq)) (h7 ▸ h6), h7]

/-- **Every readable `.json` file is a copy that the boot sees.** -/
theorem readAll_spec (env : PersistEnv B W) (works : FileName → FileName → Bool) (d0 : CollectorDir B) :
    (readAll env works d0).disk.Always (Shrunk env d0) ∧ (readAll env works d0).copies = copiesOf env d0 := by
  have hstart : (Disk.start d0).Always (Shrunk env d0) := Disk.always_start ⟨fun _ hx => hx, fun _ _ hw => hw.mem⟩
  obtain ⟨h1, h2⟩ := @readSteps _ _ d0 env works (jsonPaths d0) ⟨.start d0, [], []⟩ (d0.nodup.filter _) (fun p hp => by
    obtain ⟨hkey, hjson⟩ := List.mem_filter.mp hp
    obtain ⟨v, hv⟩ := Option.isSome_iff_exists.mp (FMap.mem_keys_iff.mp hkey)
    exact ⟨hjson, by rw [hv]; exact Option.some_ne_none v, rfl⟩) hstart
  exact ⟨h1, h2.trans (filterMap_copyIn d0)⟩

/-! ### Which copies are left -/

/-- The stale copies of one collector are set aside, or left. -/
theorem staleSteps (works : FileName → FileName → Bool) (index : ℕ) : ∀ (stale : List (FileCopy W))
    {x : Disk FileName (DirFile B) × List (ℕ × FileName)}, x.1.Always (Shrunk env d0) →
    (∀ z ∈ stale, ∀ key w, Wins env d0 key w → w.path ≠ z.path) →
    (stale.foldl (setAsideStale works index) x).1.Always (Shrunk env d0)
  | [], _, h, _ => h
  | z :: stale, x, h, hstale => by
    obtain ⟨h1, -⟩ := @setAside_shrinks _ _ _ works d0 _ h "superseded" (by decide) (by decide) z.path
      (hstale z List.mem_cons_self)
    have hstep : (setAsideStale works index x z).1 = (setAside works "superseded" z.path x.1).2 := by
      unfold setAsideStale
      split
      · rename_i heq
        rw [heq]
      · rename_i heq
        rw [heq]
    exact staleSteps works index stale (hstep ▸ h1) fun z' hz' => hstale z' (List.mem_cons_of_mem _ hz')

/-- The winner of a collector, as the code carries it. -/
def winnerOf (copies : List (FileCopy W)) (key : String × String) : Option (Winner W) :=
  (sortedCopies copies key).head?.map fun w => ⟨w.path, collectorPath key.1 key.2, w.file⟩

theorem settleSteps (env : PersistEnv B W) (works : FileName → FileName → Bool) (d0 : CollectorDir B) :
    ∀ (keys : List (String × String)) {x : Settling B W}, x.disk.Always (Shrunk env d0) →
    (keys.foldl (settleStep works (copiesOf env d0)) x).disk.Always (Shrunk env d0) ∧
    (keys.foldl (settleStep works (copiesOf env d0)) x).winners =
      x.winners ++ keys.filterMap (winnerOf (copiesOf env d0))
  | [], _, h => ⟨h, (List.append_nil _).symm⟩
  | key :: keys, x, h => by
    rw [List.foldl_cons]
    cases hsorted : sortedCopies (copiesOf env d0) key with
    | nil =>
      have hstep : settleStep works (copiesOf env d0) x key = x := by
        unfold settleStep
        rw [hsorted]
      have hnone : winnerOf (copiesOf env d0) key = none := by
        unfold winnerOf
        rw [hsorted]
        rfl
      rw [hstep, List.filterMap_cons_none hnone]
      exact settleSteps env works d0 keys h
    | cons w stale =>
      have hwins : Wins env d0 key w := wins_iff.mpr (by rw [hsorted]; rfl)
      obtain ⟨-, -, -, -, hstale⟩ := sortedCopies_cons hsorted
      have hnot : ∀ z ∈ stale, ∀ k v, Wins env d0 k v → v.path ≠ z.path := by
        intro z hz k v hv he
        obtain ⟨hmem, hkey⟩ := hstale z hz
        obtain rfl := eq_of_path hv.mem hmem he
        obtain rfl : k = key := hv.key_eq.symm.trans hkey
        exact stale_path_ne (nodup_copiesOf d0) hsorted hz (congrArg FileCopy.path (hv.unique hwins))
      have hsome : winnerOf (copiesOf env d0) key = some ⟨w.path, collectorPath key.1 key.2, w.file⟩ := by
        unfold winnerOf
        rw [hsorted]
        rfl
      have hstep : settleStep works (copiesOf env d0) x key =
          ⟨(stale.foldl (setAsideStale works x.winners.length) (x.disk, x.losers)).1,
           x.winners ++ [⟨w.path, collectorPath key.1 key.2, w.file⟩],
           (stale.foldl (setAsideStale works x.winners.length) (x.disk, x.losers)).2⟩ := by
        unfold settleStep
        rw [hsorted]
      rw [hstep, List.filterMap_cons_some hsome]
      obtain ⟨h1, h2⟩ := @settleSteps env works d0 keys
        ⟨(stale.foldl (setAsideStale works x.winners.length) (x.disk, x.losers)).1,
         x.winners ++ [⟨w.path, collectorPath key.1 key.2, w.file⟩],
         (stale.foldl (setAsideStale works x.winners.length) (x.disk, x.losers)).2⟩
        (@staleSteps _ _ _ d0 works x.winners.length stale (x.disk, x.losers) h hnot)
      exact ⟨h1, by rw [h2, List.append_assoc]; rfl⟩

/-- **After the set-asides**: fewer copies, and the winners among them. -/
theorem settleAll_spec (env : PersistEnv B W) (works : FileName → FileName → Bool) (d0 : CollectorDir B) :
    (settleAll works (readAll env works d0)).disk.Always (Shrunk env d0) ∧
    (settleAll works (readAll env works d0)).winners =
      (sortedKeys (copiesOf env d0)).filterMap (winnerOf (copiesOf env d0)) := by
  obtain ⟨hread, hcopies⟩ := readAll_spec env works d0
  unfold settleAll
  rw [hcopies]
  exact @settleSteps _ _ env works d0 (sortedKeys (copiesOf env d0)) ⟨(readAll env works d0).disk, [], []⟩ hread

/-- **What a boot returns is settled by the directory it finds**, whichever
renames fail. -/
theorem loadAll_collectors (env : PersistEnv B W) (works : FileName → FileName → Bool) (d : CollectorDir B) :
    (loadAll env works d).2.collectors = collectorsOf env d := by
  show (settleAll works (readAll env works d)).winners.map Winner.file = _
  rw [(settleAll_spec env works d).2, List.map_filterMap]
  refine List.filterMap_congr fun key _ => ?_
  unfold winnerOf
  rw [Option.map_map]
  rfl

/-! ### Winners on the move -/

/-- The same copy, elsewhere. -/
def FileCopy.at (x : FileCopy W) (path : FileName) : FileCopy W := { x with path }

/-- Where the key's file belongs. -/
def canonicalOf (key : String × String) : FileName := collectorPath key.1 key.2

/-- Each winner is where `loc` says, one of the three places it passes, and
beside the winners there are only copies that were there. -/
structure Located (env : PersistEnv B W) (d0 d : CollectorDir B) (loc : String × String → FileName) : Prop where
  found : ∀ key x, Wins env d0 key x → x.at (loc key) ∈ copiesOf env d
  place : ∀ key x, Wins env d0 key x →
    loc key = x.path ∨ loc key = stagingPath (canonicalOf key) ∨ loc key = canonicalOf key
  only : ∀ y ∈ copiesOf env d, (∃ key x, Wins env d0 key x ∧ y = x.at (loc key)) ∨ y ∈ copiesOf env d0

/-- The winner is left under its staging name, and a copy that says something
else and is just as recent is still where it was, before the staging name. -/
def Overtaken (env : PersistEnv B W) (d0 d : CollectorDir B) : Prop :=
  ∃ key x y, Wins env d0 key x ∧ x.at (stagingPath (canonicalOf key)) ∈ copiesOf env d ∧
    y ∈ copiesOf env d0 ∧ y ∈ copiesOf env d ∧ y.key = key ∧ y.modified = x.modified ∧
    y.path < stagingPath (canonicalOf key) ∧ y.file ≠ x.file

/-- **A winner wins at each of its places** over the copies that are left, but
at its staging name over a tied one that sorts before it. -/
theorem precedes_at (hx : Wins env d0 key x) {q : FileName}
    (hq : q = x.path ∨ q = stagingPath (canonicalOf key) ∨ q = canonicalOf key) (hy : y ∈ copiesOf env d0)
    (hkey : y.key = key) (hne : y.path ≠ x.path) : (x.at q).precedes (canonicalOf key) y ∨
      q = stagingPath (canonicalOf key) ∧ y.modified = x.modified ∧ y.path < q := by
  have hfirst : x.precedes (canonicalOf key) y := hx.first y hy hkey
  rcases hq with rfl | hq
  · exact .inl hfirst
  · rcases hfirst with hnewer | ⟨htie, hfirst⟩
    · exact .inl (.inl hnewer)
    · -- a tied copy in place would have won
      have hout : y.path ≠ canonicalOf key := by
        rcases hfirst with ⟨-, h⟩ | ⟨h, -⟩
        · exact h
        · exact fun he => hne (he.trans (h.mpr he).symm)
      by_cases hc : q = canonicalOf key
      · exact .inl (.inr ⟨htie, .inl ⟨hc, hout⟩⟩)
      · rcases le_or_gt q y.path with hle | hlt
        · exact .inl (.inr ⟨htie, .inr ⟨⟨fun h => absurd h hc, fun h => absurd h hout⟩, hle⟩⟩)
        · exact .inr ⟨hq.resolve_right hc, htie.symm, hlt⟩

/-- **The winners are the same**, where none is overtaken. -/
theorem Located.sameWinners {loc : String × String → FileName} (h : Located env d0 d loc)
    (hclear : ¬ Overtaken env d0 d) : SameWinners env d d0 := by
  have hforth : ∀ {key z}, Wins env d key z → ∃ x, Wins env d0 key x ∧ x.file = z.file := by
    intro key z hz
    rcases h.only z hz.mem with ⟨k, x, hx, rfl⟩ | hmem
    · obtain rfl : k = key := hx.key_eq.symm.trans hz.key_eq
      exact ⟨x, hx, rfl⟩
    · obtain ⟨x, hx⟩ := exists_wins hmem
      rw [hz.key_eq] at hx
      refine ⟨x, hx, ?_⟩
      by_cases hpath : z.path = x.path
      · rw [eq_of_path hmem hx.mem hpath]
      · have hfound := h.found key x hx
        rcases precedes_at hx (h.place key x hx) hmem hz.key_eq hpath with h1 | ⟨hq, htie, hlt⟩
        · have h2 : z.precedes (canonicalOf key) (x.at (loc key)) := hz.first _ hfound hx.key_eq
          have heq := eq_of_path hz.mem hfound (FileCopy.path_eq_of_precedes h2 h1)
          rw [heq]
          rfl
        · rw [hq] at hfound hlt
          by_contra hfile
          exact hclear ⟨key, x, z, hx, hfound, hmem, hz.mem, hz.key_eq, htie, hlt, Ne.symm hfile⟩
  intro key c
  constructor
  · rintro ⟨z, hz, rfl⟩
    exact hforth hz
  · rintro ⟨x, hx, rfl⟩
    obtain ⟨z, hz⟩ := exists_wins (h.found key x hx)
    rw [show (x.at (loc key)).key = key from hx.key_eq] at hz
    obtain ⟨x', hx', hfile⟩ := hforth hz
    rw [hx.unique hx']
    exact ⟨z, hz, hfile.symm⟩

/-- A copy is found where it was moved, and the others where they were. -/
theorem mem_copiesOf_moved {src dst : FileName} {f : DirFile B} (hsrc : d.get? src = some f) (hdst : d.get? dst = none)
    (hj : isJson dst = true) (hjs : isJson src = true) : y ∈ copiesOf env (moved d src dst f) ↔
      y ∈ copiesOf env d ∧ y.path ≠ src ∨ y.path = dst ∧ y.at src ∈ copiesOf env d := by
  rw [mem_copiesOf, mem_copiesOf, mem_copiesOf, get?_moved]
  by_cases h1 : y.path = dst
  · rw [if_pos h1, h1, hdst]
    simp [FileCopy.at, hsrc, hj, hjs]
  · rw [if_neg h1]
    by_cases h2 : y.path = src
    · have h3 : ¬ src = dst := h2 ▸ h1
      rw [if_pos h2]
      simp [h2, h3]
    · rw [if_neg h2]
      simp [h1, h2]

/-- **A winner moves to another of its places.** -/
theorem Located.move {loc : String × String → FileName} (h : Located env d0 d loc) (hx : Wins env d0 key x)
    {dst : FileName} {f : DirFile B} (hsrc : d.get? (loc key) = some f) (hdst : d.get? dst = none)
    (hplace : dst = x.path ∨ dst = stagingPath (canonicalOf key) ∨ dst = canonicalOf key) :
    Located env d0 (moved d (loc key) dst f) (Function.update loc key dst) := by
  have hjson : ∀ {k z q}, Wins env d0 k z → (q = z.path ∨ q = stagingPath (canonicalOf k) ∨ q = canonicalOf k) →
      isJson q = true := by
    intro k z q hz hq
    rcases hq with hq | hq | hq <;> rw [hq]
    · exact (mem_copiesOf.mp hz.mem).1
    · exact isJson_stagingPath _
    · exact isJson_collectorPath _ _
  have hmem := fun y => @mem_copiesOf_moved _ _ env d y _ _ _ hsrc hdst (hjson hx hplace) (hjson hx (h.place key x hx))
  have hfound := h.found key x hx
  -- another winner is elsewhere
  have hother : ∀ {k z}, Wins env d0 k z → k ≠ key → loc k ≠ loc key := by
    intro k z hz hk he
    have heq := eq_of_path (h.found k z hz) hfound he
    have hkeys : (z.at (loc k)).key = (x.at (loc key)).key := by rw [heq]
    exact hk (hz.key_eq.symm.trans (hkeys.trans hx.key_eq))
  refine ⟨fun k z hz => ?_, fun k z hz => ?_, fun y hy => ?_⟩
  · by_cases hk : k = key
    · subst hk
      obtain rfl := hz.unique hx
      rw [Function.update_self]
      exact (hmem _).mpr (.inr ⟨rfl, hfound⟩)
    · rw [Function.update_of_ne hk]
      exact (hmem _).mpr (.inl ⟨h.found k z hz, hother hz hk⟩)
  · by_cases hk : k = key
    · subst hk
      obtain rfl := hz.unique hx
      rw [Function.update_self]
      exact hplace
    · rw [Function.update_of_ne hk]
      exact h.place k z hz
  · rcases (hmem y).mp hy with ⟨hy, hne⟩ | ⟨hpath, hy⟩
    · refine (h.only y hy).imp_left ?_
      rintro ⟨k, z, hz, rfl⟩
      have hk : k ≠ key := by
        rintro rfl
        exact hne rfl
      exact ⟨k, z, hz, by rw [Function.update_of_ne hk]⟩
    · refine .inl ⟨key, x, hx, ?_⟩
      rw [Function.update_self]
      have heq := eq_of_path hy hfound rfl
      obtain ⟨path, modified, file⟩ := y
      obtain ⟨-, rfl, rfl⟩ := FileCopy.mk.inj heq
      rw [show path = dst from hpath]
      rfl

/-- A directory that the boot passes: the winners where they were, among fewer
copies, or on the move. -/
def Passes (env : PersistEnv B W) (d0 d : CollectorDir B) : Prop := Shrunk env d0 d ∨ ∃ loc, Located env d0 d loc

/-- The winners are where `loc` says. -/
structure Moving (env : PersistEnv B W) (d0 : CollectorDir B) (s : Disk FileName (DirFile B))
    (loc : String × String → FileName) : Prop where
  located : Located env d0 s.dir loc
  always : s.Always (Passes env d0)

/-- The code's record of the collector's winner. -/
def IsWinner (env : PersistEnv B W) (d0 : CollectorDir B) (w : Winner W) : Prop :=
  ∃ x, Wins env d0 w.file.key x ∧ w = ⟨x.path, canonicalOf w.file.key, x.file⟩

section Moves

variable {loc : String × String → FileName} {w : Winner W} {ws : List (Winner W)}

theorem Moving.rename (h : Moving env d0 s loc) (hw : IsWinner env d0 w)
    {src dst : FileName} (hsrc : loc w.file.key = src)
    (hdst : dst = w.path ∨ dst = stagingPath w.canonical ∨ dst = w.canonical) :
    renameNoClobber works src dst s = (false, s) ∨
    ∃ s', renameNoClobber works src dst s = (true, s') ∧
      Moving env d0 s' (Function.update loc w.file.key dst) := by
  rcases renameNoClobber_cases works src dst s with heq | ⟨f, hf, hfree, heq⟩
  · exact .inl heq
  · obtain ⟨x, hx, hrec⟩ := hw
    have hpath := congrArg Winner.path hrec
    have hcanonical := congrArg Winner.canonical hrec
    dsimp only at hpath hcanonical
    rw [hpath, hcanonical] at hdst
    subst hsrc
    have hmoved := h.located.move hx hf hfree hdst
    exact .inr ⟨_, heq, hmoved, h.always.next (.inr ⟨_, hmoved⟩)⟩

/-- Different winners are of different collectors. -/
theorem key_ne_of_index (hkeys : (ws.map fun w => w.file.key).Nodup) {i j : ℕ} {w' : Winner W} (hi : ws[i]? = some w)
    (hj : ws[j]? = some w') (hne : i ≠ j) : w.file.key ≠ w'.file.key := by
  intro he
  obtain ⟨hilt, hi'⟩ := List.getElem?_eq_some_iff.mp hi
  obtain ⟨hjlt, hj'⟩ := List.getElem?_eq_some_iff.mp hj
  have hilt' : i < (ws.map fun w => w.file.key).length := by rwa [List.length_map]
  have hjlt' : j < (ws.map fun w => w.file.key).length := by rwa [List.length_map]
  have hsame : (ws.map fun w => w.file.key)[i] = (ws.map fun w => w.file.key)[j] := by
    rw [List.getElem_map, List.getElem_map, hi', hj']
    exact he
  exact hne (hkeys.getElem_inj_iff.mp hsame)

variable (hws : ∀ w ∈ ws, IsWinner env d0 w) (hkeys : (ws.map fun w => w.file.key).Nodup)

include hws hkeys

/-- Staging moves winners to their staging names, and lists those that are
there. -/
theorem stageSteps : ∀ (l : List (Winner W × ℕ)) {x : Staging B} {loc : String × String → FileName},
    Moving env d0 x.disk loc → (x.staged.map Prod.fst ++ l.map Prod.snd).Nodup →
    (∀ q ∈ l, ws[q.2]? = some q.1 ∧ loc q.1.file.key = q.1.path) →
    (∀ q ∈ x.staged, ∃ w, ws[q.1]? = some w ∧ loc w.file.key = q.2) →
    ∃ loc', Moving env d0 (l.foldl (stageStep works) x).disk loc' ∧
      ((l.foldl (stageStep works) x).staged.map Prod.fst).Nodup ∧
      ∀ q ∈ (l.foldl (stageStep works) x).staged, ∃ w, ws[q.1]? = some w ∧ loc' w.file.key = q.2
  | [], x, loc, h, hnodup, _, hstaged => ⟨loc, h, by simpa using hnodup, hstaged⟩
  | (w, i) :: l, x, loc, h, hnodup, hl, hstaged => by
    obtain ⟨hw, hloc⟩ := hl (w, i) List.mem_cons_self
    have hnext : (x.staged.map Prod.fst ++ l.map Prod.snd).Nodup := by
      refine hnodup.sublist ?_
      rw [List.map_cons]
      exact (List.Sublist.refl _).append (List.sublist_cons_self _ _)
    have hadded : ∀ path, ((x.staged ++ [(i, path)]).map Prod.fst ++ l.map Prod.snd).Nodup := by
      intro path
      rw [List.map_append, List.map_singleton, List.append_assoc]
      exact hnodup
    have hlater : ∀ q ∈ l, ws[q.2]? = some q.1 ∧ loc q.1.file.key = q.1.path :=
      fun q hq => hl q (List.mem_cons_of_mem _ hq)
    rw [List.foldl_cons]
    by_cases hplace : w.path = w.canonical
    · have hstep : stageStep works x (w, i) = x := if_pos hplace
      rw [hstep]
      exact stageSteps l h hnext hlater hstaged
    · by_cases hthere : w.path = stagingPath w.canonical
      · have hstep : stageStep works x (w, i) = { x with staged := x.staged ++ [(i, stagingPath w.canonical)] } := by
          unfold stageStep
          rw [if_neg hplace, if_pos hthere]
        rw [hstep]
        refine stageSteps l h (hadded _) hlater fun q hq => ?_
        rcases List.mem_append.mp hq with hq | hq
        · exact hstaged q hq
        · rw [List.mem_singleton.mp hq]
          exact ⟨w, hw, hloc.trans hthere⟩
      · have hwinner := hws w (List.mem_of_getElem? hw)
        rcases h.rename hwinner hloc (.inr (.inl rfl)) with heq | ⟨s', heq, hmoved⟩
        · have hstep : stageStep works x (w, i) = x := by
            unfold stageStep
            rw [if_neg hplace, if_neg hthere, heq]
          rw [hstep]
          exact stageSteps l h hnext hlater hstaged
        · have hstep : stageStep works x (w, i) = ⟨s', x.staged ++ [(i, stagingPath w.canonical)]⟩ := by
            unfold stageStep
            rw [if_neg hplace, if_neg hthere, heq]
          -- the move is about this winner only
          have hout := List.disjoint_of_nodup_append hnodup
          have hkeep : ∀ {j w'}, ws[j]? = some w' → j ≠ i →
              Function.update loc w.file.key (stagingPath w.canonical) w'.file.key = loc w'.file.key := by
            intro j w' hj hne
            exact Function.update_of_ne (key_ne_of_index hkeys hj hw hne) _ _
          rw [hstep]
          refine stageSteps l hmoved (hadded _) (fun q hq => ?_) fun q hq => ?_
          · obtain ⟨h1, h2⟩ := hlater q hq
            refine ⟨h1, ?_⟩
            rw [hkeep h1 fun he => ?_, h2]
            have hlist := (List.nodup_append.mp hnodup).2.1
            rw [List.map_cons, List.nodup_cons] at hlist
            exact hlist.1 (List.mem_map.mpr ⟨q, hq, he⟩)
          · rcases List.mem_append.mp hq with hq | hq
            · obtain ⟨w', h1, h2⟩ := hstaged q hq
              refine ⟨w', h1, ?_⟩
              rw [hkeep h1 fun he => ?_, h2]
              exact hout (he ▸ List.mem_map_of_mem hq) List.mem_cons_self
            · rw [List.mem_singleton.mp hq]
              exact ⟨w, hw, Function.update_self _ _ _⟩

/-- Placing moves each of them to its canonical name, or back. -/
theorem placeSteps : ∀ (l : List (ℕ × FileName)) {x : Placing B} {loc : String × String → FileName},
    Moving env d0 x.disk loc → (l.map Prod.fst).Nodup →
    (∀ q ∈ l, ∃ w, ws[q.1]? = some w ∧ loc w.file.key = q.2) →
    (l.foldl (placeStep works ws) x).disk.Always (Passes env d0)
  | [], _, _, h, _, _ => h.always
  | (i, src) :: l, x, loc, h, hnodup, hl => by
    obtain ⟨w, hw, hloc⟩ := hl (i, src) List.mem_cons_self
    have hwinner := hws w (List.mem_of_getElem? hw)
    obtain ⟨hout, hnext⟩ := List.nodup_cons.mp hnodup
    have hrest : ∀ {dst}, ∀ q ∈ l, ∃ w', ws[q.1]? = some w' ∧ Function.update loc w.file.key dst w'.file.key = q.2 := by
      intro dst q hq
      obtain ⟨w', h1, h2⟩ := hl q (List.mem_cons_of_mem _ hq)
      have hne : q.1 ≠ i := fun he => hout (List.mem_map.mpr ⟨q, hq, he⟩)
      exact ⟨w', h1, by rw [Function.update_of_ne (key_ne_of_index hkeys h1 hw hne), h2]⟩
    rw [List.foldl_cons]
    unfold placeStep
    dsimp only
    rw [hw]
    dsimp only
    rcases h.rename hwinner hloc (.inr (.inr rfl)) with heq | ⟨s', heq, hmoved⟩
    · rw [heq]
      dsimp only
      rcases h.rename hwinner hloc (.inl rfl) with heq | ⟨s', heq, hmoved⟩
      · rw [heq]
        exact placeSteps l h hnext fun q hq => hl q (List.mem_cons_of_mem _ hq)
      · rw [heq]
        exact placeSteps l hmoved hnext hrest
    · rw [heq]
      exact placeSteps l hmoved hnext hrest

end Moves

/-- Where the winner of a collector is at first. -/
def firstPath (env : PersistEnv B W) (d0 : CollectorDir B) (key : String × String) : FileName :=
  ((sortedCopies (copiesOf env d0) key).head?.map FileCopy.path).getD []

theorem Wins.firstPath_eq (h : Wins env d0 key x) : firstPath env d0 key = x.path := by
  unfold firstPath
  rw [wins_iff.mp h]
  rfl

/-- The winners that the code carries. -/
theorem winners_spec (env : PersistEnv B W) (d0 : CollectorDir B) :
    (∀ w ∈ (sortedKeys (copiesOf env d0)).filterMap (winnerOf (copiesOf env d0)), IsWinner env d0 w) ∧
    (((sortedKeys (copiesOf env d0)).filterMap (winnerOf (copiesOf env d0))).map fun w => w.file.key).Nodup := by
  have hof : ∀ {key w}, winnerOf (copiesOf env d0) key = some w →
      ∃ x, Wins env d0 key x ∧ w = ⟨x.path, canonicalOf key, x.file⟩ := by
    intro key w h
    obtain ⟨x, hx, rfl⟩ := Option.map_eq_some_iff.mp h
    exact ⟨x, wins_iff.mpr hx, rfl⟩
  refine ⟨fun w hw => ?_, ?_⟩
  · obtain ⟨key, -, hkey⟩ := List.mem_filterMap.mp hw
    obtain ⟨x, hx, rfl⟩ := hof hkey
    obtain rfl : x.file.key = key := hx.key_eq
    exact ⟨x, hx, rfl⟩
  · rw [List.map_filterMap]
    have hkey : ∀ key ∈ sortedKeys (copiesOf env d0),
        (winnerOf (copiesOf env d0) key).map (fun w => w.file.key) = some key := by
      intro key hmem
      obtain ⟨x, hx, rfl⟩ := mem_sortedKeys.mp hmem
      obtain ⟨z, hz⟩ := exists_wins hx
      unfold winnerOf
      rw [wins_iff.mp hz]
      exact congrArg some hz.key_eq
    rw [List.filterMap_congr hkey, List.filterMap_some]
    exact nodup_sortedKeys _

/-- **The winners are never lost from sight**, wherever the boot is cut off. -/
theorem loadAll_passes (env : PersistEnv B W) (works : FileName → FileName → Bool) (d0 : CollectorDir B) :
    (loadAll env works d0).1.Always (Passes env d0) := by
  obtain ⟨hshrunk, hwinners⟩ := settleAll_spec env works d0
  obtain ⟨hws, hkeys⟩ := winners_spec env d0
  set x := settleAll works (readAll env works d0) with hx
  rw [← hwinners] at hws hkeys
  have hstart : Moving env d0 x.disk (firstPath env d0) := by
    refine ⟨⟨fun key z hz => ?_, fun key z hz => .inl hz.firstPath_eq, fun y hy => .inr (hshrunk.now.sub y hy)⟩,
      hshrunk.mono fun _ h => .inl h⟩
    rw [hz.firstPath_eq]
    exact hshrunk.now.keep key z hz
  have hindex : ∀ q ∈ x.winners.zipIdx, x.winners[q.2]? = some q.1 ∧ firstPath env d0 q.1.file.key = q.1.path := by
    rintro ⟨w, i⟩ hq
    have hw : x.winners[i]? = some w := List.mem_zipIdx_iff_getElem?.mp hq
    obtain ⟨z, hz, hrec⟩ := hws w (List.mem_of_getElem? hw)
    refine ⟨hw, hz.firstPath_eq.trans ?_⟩
    rw [hrec]
  obtain ⟨loc, hmoving, hnodup, hstaged⟩ := stageSteps hws hkeys x.winners.zipIdx
    (x := ⟨x.disk, []⟩) hstart (by simpa using List.nodup_range') hindex fun q hq => absurd hq List.not_mem_nil
  exact placeSteps hws hkeys _ (x := ⟨_, x.winners.map Winner.path⟩) hmoving hnodup hstaged

/-! ### Boots -/

/-- A boot that crashes after `n` of its renames, if it makes that many. -/
def bootStep (env : PersistEnv B W) (d : CollectorDir B) (a : (FileName → FileName → Bool) × ℕ) :
    Option (CollectorDir B) := (loadAll env a.1 d).1.visited[a.2]?

theorem SameWinners.trans {d1 d2 d3 : CollectorDir B} (h : SameWinners env d1 d2) (h' : SameWinners env d2 d3) :
    SameWinners env d1 d3 := fun key c => (h key c).trans (h' key c)

/-- **Boot migration loses nothing.** After any boots of any directory, each
cut off after any of its renames, whichever renames fail: every file is still
there. A boot returns one collector for each owner and name that a readable
`.json` file has, a most recently modified copy. And it returns the same after
any boots that leave no winner under its staging name with a copy just as
recent, which says something else, still standing before it. -/
theorem boot_migration_loses_nothing (env : PersistEnv B W) (d0 : CollectorDir B) :
    (∀ d, Reach (bootStep env) (fun _ _ => True) d0 d → (d.entries.map Prod.snd).Perm (d0.entries.map Prod.snd)) ∧
    (∀ works,
      ((loadAll env works d0).2.collectors.map PersistedCollector.key).Nodup ∧
      (∀ key, key ∈ (loadAll env works d0).2.collectors.map PersistedCollector.key ↔
        ∃ x ∈ copiesOf env d0, x.key = key) ∧
      ∀ c ∈ (loadAll env works d0).2.collectors, ∃ x ∈ copiesOf env d0, x.file = c ∧
        ∀ y ∈ copiesOf env d0, y.key = x.key → y.modified ≤ x.modified) ∧
    ∀ d, Reach (bootStep env) (fun d a => ∀ d' ∈ bootStep env d a, ¬ Overtaken env d d') d0 d → ∀ works works',
      (loadAll env works d).2.collectors = (loadAll env works' d0).2.collectors := by
  refine ⟨fun d hr => ?_, fun works => ?_, fun d hr works works' => ?_⟩
  · refine hr.invariant (I := fun d => SameFiles d0 d) (List.Perm.refl _) fun d a d' h _ hs => ?_
    have hvisited := (loadAll_files env a.1 d).visited d' (List.mem_of_getElem? hs)
    exact List.Perm.trans hvisited h
  · rw [loadAll_collectors]
    exact collectorsOf_spec env d0
  · rw [loadAll_collectors, loadAll_collectors]
    have hsame : SameWinners env d d0 := by
      refine hr.invariant (I := fun d => SameWinners env d d0) (fun _ _ => Iff.rfl) fun d a d' h hclear hs => ?_
      rcases (loadAll_passes env a.1 d).visited d' (List.mem_of_getElem? hs) with hshrunk | ⟨loc, hlocated⟩
      · exact hshrunk.sameWinners.trans h
      · exact (hlocated.sameWinners (hclear d' hs)).trans h
    exact hsame.collectorsOf_eq

/-! ### Two copies of one collector -/

namespace TwoCopies

/-- Files that hold the record itself. -/
def plain : PersistEnv (PersistedCollector Unit) Unit := ⟨.ok, fun _ => ""⟩

/-- A copy of the collector `y` of `x`, told apart by its description. -/
def copy (description : String) (modified : ℤ) : DirFile (PersistedCollector Unit) where
  content := .ok
    { version := 1, name := "y", owner := "x", domain := "default", filter := "ALL", level := "scalar", groupKeys := []
      maxSampleBytes := 0, description := some description, threshold := none, armedAt := 0, snapshots := []
      nextAutoLabel := 1, snapshotsEvicted := 0 }
  modified := some modified

/-- Two copies under names of their own. -/
def dir (first second : ℤ) : CollectorDir (PersistedCollector Unit) where
  entries := [(ascii "a.json", copy "first" first), (ascii "b.json", copy "second" second)]
  nodup := by
    have hnames : [ascii "a.json", ascii "b.json"].Nodup := by decide
    exact hnames

/-- The descriptions of what a boot returns. -/
def returned (works : FileName → FileName → Bool) (d : CollectorDir (PersistedCollector Unit)) : List (Option String) :=
  (loadAll plain works d).2.collectors.map PersistedCollector.description

end TwoCopies

/-- The copies of these directories are of one collector. -/
theorem TwoCopies.key_eq {first second : ℤ} {x : FileCopy Unit}
    (hx : x ∈ copiesOf TwoCopies.plain (TwoCopies.dir first second)) : x.key = ("x", "y") := by
  obtain ⟨-, f, hf, hread, -⟩ := mem_copiesOf.mp hx
  have hmem : (x.path, f) ∈ (TwoCopies.dir first second).entries := FMap.mem_iff.mpr hf
  rcases List.mem_cons.mp hmem with h | h
  · obtain ⟨-, rfl⟩ := Prod.mk.inj h
    exact (congrArg PersistedCollector.key (Except.ok.inj hread)).symm
  · obtain ⟨-, rfl⟩ := Prod.mk.inj (List.mem_singleton.mp h)
    exact (congrArg PersistedCollector.key (Except.ok.inj hread)).symm

/-- Two copies are just as recent, and the second cannot be moved. A boot that
moves the first into place leaves it there: the next returns it too. -/
theorem boot_migration_loses_nothing_of_two :
    ∃ d, bootStep TwoCopies.plain (TwoCopies.dir 5 5) (fun src _ => src ≠ ascii "b.json", 2) = some d ∧
      (d.entries.map Prod.snd).Perm ((TwoCopies.dir 5 5).entries.map Prod.snd) ∧
      d.get? (ascii "b.json") ≠ none ∧ TwoCopies.returned (fun _ _ => true) d = [some "first"] := by
  have hrun : (bootStep TwoCopies.plain (TwoCopies.dir 5 5) (fun src _ => src ≠ ascii "b.json", 2)).map
      (fun d => (d.get? (ascii "b.json")).isSome && (d.get? (stagingPath (canonicalOf ("x", "y")))).isNone) = some true := by
    decide +kernel
  obtain ⟨d, hd, hat⟩ := Option.map_eq_some_iff.mp hrun
  rw [Bool.and_eq_true, Option.isNone_iff_eq_none] at hat
  have hclear : ∀ d' ∈ bootStep TwoCopies.plain (TwoCopies.dir 5 5) (fun src _ => src ≠ ascii "b.json", 2),
      ¬ Overtaken TwoCopies.plain (TwoCopies.dir 5 5) d' := by
    rintro d' hd' ⟨key, x, y, hx, hstaged, -⟩
    obtain rfl := Option.some.inj (hd.symm.trans (Option.mem_def.mp hd'))
    obtain rfl : ("x", "y") = key := (TwoCopies.key_eq hx.mem).symm.trans hx.key_eq
    obtain ⟨-, f, hf, -⟩ := mem_copiesOf.mp hstaged
    have hsome : d.get? (stagingPath (canonicalOf ("x", "y"))) = some f := hf
    rw [hat.2] at hsome
    cases hsome
  obtain ⟨h1, -, h3⟩ := boot_migration_loses_nothing TwoCopies.plain (TwoCopies.dir 5 5)
  refine ⟨d, hd, h1 d (.next .start trivial hd), Option.ne_none_iff_isSome.mpr hat.1, ?_⟩
  unfold TwoCopies.returned
  rw [h3 d (.next .start hclear hd) _ fun _ _ => true]
  decide +kernel

/-- **A tied copy that cannot be set aside can come back.** Two copies are
just as recent, and the second cannot be moved. A boot returns the first and
crashes after staging it, or can move it neither on nor back; the next returns
the second, whose path is before the staging name. -/
theorem another_copy_after_crash :
    (∃ works d, Reach (bootStep TwoCopies.plain) (fun _ _ => True) (TwoCopies.dir 5 5) d ∧
      TwoCopies.returned works (TwoCopies.dir 5 5) = [some "first"] ∧ TwoCopies.returned works d = [some "second"]) ∧
    ∃ works, TwoCopies.returned works (TwoCopies.dir 5 5) = [some "first"] ∧
      TwoCopies.returned works (loadAll TwoCopies.plain works (TwoCopies.dir 5 5)).1.dir = [some "second"] := by
  have hrun : (bootStep TwoCopies.plain (TwoCopies.dir 5 5) (fun src _ => src ≠ ascii "b.json", 1)).map
      (TwoCopies.returned fun src _ => src ≠ ascii "b.json") = some [some "second"] := by
    decide +kernel
  obtain ⟨d, hd, hsecond⟩ := Option.map_eq_some_iff.mp hrun
  refine ⟨⟨_, d, .next .start trivial hd, by decide +kernel, hsecond⟩, fun src _ => src = ascii "a.json", ?_, ?_⟩
  · decide +kernel
  · decide +kernel

end Logmon
