/-
# Call paths

`walk_path` and `path_aggregates` of `collector/project.rs`: a span's path is
the chain of its retained ancestors, by the parent ids the producer supplied,
and self time is added up over the spans of one path. The parent ids form any
graph; the walk along them is one of `Lib.Walk`, with a limit of 64 frames.

Key definitions: `linkOf`, `walkPath`, `pathChildren`, `pathAggregates`.
Key theorems: `linkOf_eq`, `walk_path_safe`, `sum_pathAggregates`.
-/
import Logmon.Collector.Exact
import Logmon.Collector.SelfTime
import Logmon.Lib.Walk

namespace Logmon

open Lib

/-! ### The walk -/

/-- `MAX_PATH_DEPTH`. -/
def maxPathDepth : ℕ := 64

section
variable (parents traces names : List ℕ) (byId : FMap (ℕ × ℕ) ℕ)

/-- Where the span at `cur` leads: parent id 0 is a root, and a parent that is
not retained is missing. -/
def linkOf (cur : ℕ) : Link ℕ :=
  if parents.getD cur 0 = 0 then .root
  else
    match byId.get? (traces.getD cur 0, parents.getD cur 0) with
    | none => .missing
    | some p => .next p

/-- `walk_path`: the frames, root first, and whether they are a suffix. -/
def walkPath (interner : Interner) (start : ℕ) : List String × Bool :=
  match walk (linkOf parents traces byId) maxPathDepth maxPathDepth start with
  | .ok (visited, incomplete) => ((visited.map fun i => interner.resolve (names.getD i 0)).reverse, incomplete)
  -- the fuel is the limit, so the walk is never cut short of it
  | .error () => ([], true)

end

variable {rs : List SampleRecord}

/-- The walk goes by the parents. -/
theorem linkOf_eq (rs : List SampleRecord) {i : ℕ} {r : SampleRecord} (hr : rs[i]? = some r) :
    linkOf (Columns.of true rs).parents (Columns.of true rs).traces (Columns.of true rs).byId i =
      if r.parentSpanId = 0 then .root
      else match parentOf rs i with
        | none => .missing
        | some p => .next p := by
  obtain ⟨-, -, hparents, htraces, hid⟩ := columns_of rs
  unfold linkOf parentOf
  rw [hparents, htraces, getD_map_of_getElem? hr, getD_map_of_getElem? hr, hid, hr, Option.bind_some]
  split
  · rfl
  · cases lastPosition (fun q => q.key = (r.traceId, r.parentSpanId)) rs <;> rfl

theorem linkOf_next {i p : ℕ} {r : SampleRecord} (hr : rs[i]? = some r)
    (h : linkOf (Columns.of true rs).parents (Columns.of true rs).traces (Columns.of true rs).byId i = .next p) :
    parentOf rs i = some p := by
  rw [linkOf_eq rs hr] at h
  split at h
  · simp at h
  · split at h
    · simp at h
    · rename_i hp
      rw [hp, Link.next.inj h]

theorem linkOf_root_iff {i : ℕ} {r : SampleRecord} (hr : rs[i]? = some r) :
    linkOf (Columns.of true rs).parents (Columns.of true rs).traces (Columns.of true rs).byId i = .root ↔
      r.parentSpanId = 0 := by
  rw [linkOf_eq rs hr]
  by_cases hroot : r.parentSpanId = 0
  · simp [hroot]
  · rw [if_neg hroot]
    cases parentOf rs i <;> simp [hroot]

/-- The ancestor `n` generations up. -/
def ancestorAt (rs : List SampleRecord) : ℕ → ℕ → Option ℕ
  | 0, i => some i
  | n + 1, i => (parentOf rs i).bind (ancestorAt rs n)

theorem climb_linkOf : ∀ (n : ℕ) {i : ℕ}, i < rs.length →
    climb (linkOf (Columns.of true rs).parents (Columns.of true rs).traces (Columns.of true rs).byId) n i =
      ancestorAt rs n i
  | 0, _, _ => rfl
  | n + 1, i, hi => by
    have hr := List.getElem?_eq_getElem hi
    rw [climb, ancestorAt, linkOf_eq rs hr]
    by_cases hroot : rs[i].parentSpanId = 0
    · have hnone : parentOf rs i = none := by
        unfold parentOf
        rw [hr, Option.bind_some, if_pos hroot]
      rw [if_pos hroot, hnone]
      rfl
    · rw [if_neg hroot]
      cases hp : parentOf rs i with
      | none => rfl
      | some p =>
        obtain ⟨_, q, _, hq, _⟩ := records_of_parentOf hp
        exact climb_linkOf n (List.getElem?_eq_some_iff.mp hq).1

theorem lt_of_ancestorAt : ∀ {n i j : ℕ}, i < rs.length → ancestorAt rs n i = some j → j < rs.length
  | 0, i, j, hi, h => by
    obtain rfl : i = j := Option.some.inj h
    exact hi
  | n + 1, i, j, _, h => by
    obtain ⟨p, hp, h⟩ := Option.bind_eq_some_iff.mp h
    obtain ⟨_, q, _, hq, _⟩ := records_of_parentOf hp
    exact lt_of_ancestorAt (List.getElem?_eq_some_iff.mp hq).1 h

/-- **A path walk is safe on every graph.** It ends, whatever fuel it is given
over its limit; it lists no span twice and at most 64; every frame is the child
of the frame above it, in one trace; and it is complete exactly when it ended
at a span with no parent, which is when there is one within the limit. -/
theorem walk_path_safe (rs : List SampleRecord) (interner : Interner) (start : ℕ) (h : start < rs.length) :
    ∃ visited incomplete,
      (∀ fuel, maxPathDepth ≤ fuel →
        walk (linkOf (Columns.of true rs).parents (Columns.of true rs).traces (Columns.of true rs).byId) maxPathDepth
          fuel start = .ok (visited, incomplete)) ∧
      walkPath (Columns.of true rs).parents (Columns.of true rs).traces (rs.map SampleRecord.nameId)
          (Columns.of true rs).byId interner start =
        ((visited.map fun i => interner.resolve ((rs.map SampleRecord.nameId).getD i 0)).reverse, incomplete) ∧
      visited.head? = some start ∧ visited.length ≤ maxPathDepth ∧ visited.Nodup ∧
      visited.IsChain (fun a b => ∃ r q, rs[a]? = some r ∧ rs[b]? = some q ∧ r.parentSpanId ≠ 0 ∧
        q.traceId = r.traceId ∧ q.spanId = r.parentSpanId) ∧
      (incomplete = false ↔ ∃ last r, visited.getLast? = some last ∧ rs[last]? = some r ∧ r.parentSpanId = 0) ∧
      (incomplete = false ↔ ∃ n < maxPathDepth, ∃ i r, ancestorAt rs n start = some i ∧ rs[i]? = some r ∧
        r.parentSpanId = 0) := by
  obtain ⟨visited, incomplete, hok, hwalked, hlast, hnear⟩ :=
    walk_spec (linkOf (Columns.of true rs).parents (Columns.of true rs).traces (Columns.of true rs).byId) start
      (show 0 < maxPathDepth by decide)
  have hin : ∀ {i}, i ∈ visited → i < rs.length := by
    intro i hi
    obtain ⟨n, hn⟩ := List.mem_iff_getElem?.mp hi
    have hclimb := climb_of_walked hwalked hn
    rw [climb_linkOf n h] at hclimb
    exact lt_of_ancestorAt h hclimb
  refine ⟨visited, incomplete, hok, ?_, hwalked.head, hwalked.length_le, hwalked.nodup, ?_, ?_, ?_⟩
  · unfold walkPath
    rw [hok _ (Nat.le_refl _)]
  · refine List.isChain_iff_getElem.mpr fun n hn => ?_
    have hlt := hin (List.getElem_mem (Nat.lt_of_succ_lt hn))
    have hparent := linkOf_next (List.getElem?_eq_getElem hlt) (List.isChain_iff_getElem.mp hwalked.chain n hn)
    obtain ⟨r, q, hr, hq, hroot, hkey⟩ := records_of_parentOf hparent
    exact ⟨r, q, hr, hq, hroot, congrArg Prod.fst hkey, congrArg Prod.snd hkey⟩
  · rw [hlast]
    refine exists_congr fun last => ⟨fun ⟨hget, hroot⟩ => ?_, fun ⟨r, hget, hr, hroot⟩ => ⟨hget, (linkOf_root_iff hr).mpr hroot⟩⟩
    have hr := List.getElem?_eq_getElem (hin (List.mem_of_getLast? hget))
    exact ⟨_, hget, hr, (linkOf_root_iff hr).mp hroot⟩
  · rw [hnear]
    refine exists_congr fun n => and_congr_right fun _ => exists_congr fun i => ?_
    rw [climb_linkOf n h]
    refine ⟨fun ⟨hi, hroot⟩ => ?_, fun ⟨r, hi, hr, hroot⟩ => ⟨hi, (linkOf_root_iff hr).mpr hroot⟩⟩
    have hr := List.getElem?_eq_getElem (lt_of_ancestorAt h hi)
    exact ⟨_, hi, hr, (linkOf_root_iff hr).mp hroot⟩

/-- Two spans that claim each other as parents. -/
def circle : List SampleRecord := [⟨0, 10, 2, 0, 1, 2, 7⟩, ⟨5, 15, 3, 0, 2, 1, 7⟩]

theorem walk_path_safe_circle : ∃ (visited : List ℕ) (incomplete : Bool),
    walkPath (Columns.of true circle).parents (Columns.of true circle).traces (circle.map SampleRecord.nameId)
        (Columns.of true circle).byId (Interner.new 4) 0 =
      ((visited.map fun i => (Interner.new 4).resolve ((circle.map SampleRecord.nameId).getD i 0)).reverse, incomplete) ∧
    visited.Nodup :=
  let ⟨visited, incomplete, _, hpath, _, _, hnodup, _⟩ := walk_path_safe circle (Interner.new 4) 0 (by decide)
  ⟨visited, incomplete, hpath, hnodup⟩

/-! ### Adding paths up -/

/-- A child's time within its parent, filed under the parent. -/
def pathChild (intervals : List (ℤ × ℤ)) (children : FMap ℕ (List (ℤ × ℤ))) (i p : ℕ) : FMap ℕ (List (ℤ × ℤ)) :=
  match clipInterval (intervals.getD i (0, 0)) (intervals.getD p (0, 0)) with
  | some c => children.insert p ((children.get? p).getD [] ++ [c])
  | none => children

/-- One turn of the loop over the spans. Only a span that is its own parent is
passed over. -/
def pathTurn (intervals : List (ℤ × ℤ)) (byId : FMap (ℕ × ℕ) ℕ) (children : FMap ℕ (List (ℤ × ℤ)))
    (i parentId trace : ℕ) : FMap ℕ (List (ℤ × ℤ)) :=
  if parentId = 0 then children
  else
    match byId.get? (trace, parentId) with
    | none => children
    | some p => if p = i then children else pathChild intervals children i p

def pathChildren (intervals : List (ℤ × ℤ)) (parents traces : List ℕ) (byId : FMap (ℕ × ℕ) ℕ) :
    FMap ℕ (List (ℤ × ℤ)) :=
  (parents.zip traces).zipIdx.foldl (fun acc q => pathTurn intervals byId acc q.2 q.1.1 q.1.2) ∅

structure PathRow where
  selfNs : ℤ
  count : ℕ

def PathRow.zero : PathRow := ⟨0, 0⟩

/-- One call path's aggregate. -/
structure PathAggregate where
  frames : List String
  selfNs : ℤ
  count : ℕ
  incomplete : Bool
  deriving DecidableEq

def PathAggregate.ofRow (r : (List String × Bool) × PathRow) : PathAggregate := ⟨r.1.1, r.2.selfNs, r.2.count, r.1.2⟩

/-- The form a path is shown in. -/
def PathAggregate.path (p : PathAggregate) : String :=
  if p.incomplete then "[?] > " ++ String.intercalate " > " p.frames else String.intercalate " > " p.frames

/-- By self time, the most first, then by frames, then complete before
incomplete. -/
def pathLe (a b : PathAggregate) : Prop :=
  b.selfNs < a.selfNs ∨ a.selfNs = b.selfNs ∧
    (a.frames < b.frames ∨ a.frames = b.frames ∧ (a.incomplete = false ∨ b.incomplete = true))

instance : DecidableRel pathLe := fun _ _ => inferInstanceAs (Decidable (_ ∨ _))

/-- The self time of the span at an index: its duration, less what its children
cover. -/
def pathSelf (children : FMap ℕ (List (ℤ × ℤ))) (q : ℤ × ℕ) : ℤ :=
  max (q.1 - match children.get? q.2 with | none => 0 | some cs => unionLen cs) 0

/-- The rows by path, span after span. -/
def pathTable (children : FMap ℕ (List (ℤ × ℤ))) (walk : ℕ → List String × Bool) (durations : List ℤ) :
    FMap (List String × Bool) PathRow :=
  durations.zipIdx.foldl (fun rows q => rows.upsert (walk q.2) .zero fun row =>
    ⟨row.selfNs + pathSelf children q, row.count + 1⟩) ∅

/-- `path_aggregates`; `order` is the order the map of rows is walked in. -/
def pathAggregates (order : MapOrder) (interner : Interner) (samples : SampleSnapshot) (cutNs : Option ℤ) :
    List PathAggregate :=
  let rs := retained samples cutNs
  let cols := Columns.of true rs
  let children := pathChildren cols.intervals cols.parents cols.traces cols.byId
  let rows := pathTable children
    (walkPath cols.parents cols.traces (rs.map SampleRecord.nameId) cols.byId interner) cols.durations
  ((order.rows rows).map PathAggregate.ofRow).insertionSort pathLe

theorem sum_pathTable (children : FMap ℕ (List (ℤ × ℤ))) (walk : ℕ → List String × Bool) (ds : List (ℤ × ℕ)) :
    ∀ rows : FMap (List String × Bool) PathRow,
      ((ds.foldl (fun rows q => rows.upsert (walk q.2) .zero fun row =>
        ⟨row.selfNs + pathSelf children q, row.count + 1⟩) rows).entries.map fun q => q.2.selfNs).sum =
        (rows.entries.map fun q => q.2.selfNs).sum + (ds.map (pathSelf children)).sum := by
  induction ds with
  | nil => exact fun rows => (add_zero _).symm
  | cons d ds ih =>
    intro rows
    rw [List.foldl_cons, ih, FMap.sum_upsert PathRow.selfNs rows (walk d.2) .zero _ (pathSelf children d) rfl
      fun _ => rfl, List.map_cons, List.sum_cons, add_assoc]

/-- **The paths add up to the spans.** -/
theorem sum_pathAggregates (order : MapOrder) (interner : Interner) (samples : SampleSnapshot) (cutNs : Option ℤ) :
    ((pathAggregates order interner samples cutNs).map PathAggregate.selfNs).sum =
      ((Columns.of true (retained samples cutNs)).durations.zipIdx.map
        (pathSelf (pathChildren (Columns.of true (retained samples cutNs)).intervals
          (Columns.of true (retained samples cutNs)).parents (Columns.of true (retained samples cutNs)).traces
          (Columns.of true (retained samples cutNs)).byId))).sum := by
  unfold pathAggregates
  dsimp only
  rw [((List.perm_insertionSort pathLe _).map PathAggregate.selfNs).sum_eq, List.map_map,
    ((order.perm _).map (PathAggregate.selfNs ∘ PathAggregate.ofRow)).sum_eq]
  refine (sum_pathTable _ _ _ ∅).trans ?_
  exact zero_add _

end Logmon
