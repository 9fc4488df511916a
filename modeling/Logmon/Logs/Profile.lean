/-
# Profiles of the log

`logs/profile.rs`: how records distribute along one axis. Each record comes
under a key of typed members, one accumulator is kept for each key, and past
the cap a new key folds whole into the overflow row. A record none of whose
members has a value comes under the absent row, which no cap touches.

Every record is in exactly one row, its own or the overflow row, and what is
cut from the ranking exceeds nothing that is shown (`profile_accounts`).

Key definitions: `Axis`, `MemberKey`, `reservedKind`, `GroupAcc`, `GroupMap`,
`GroupMap.observe`, `GroupMap.finish`, `filings`, `Accounted`.
Key theorems: `foldGroup_acc`, `ProfileWalk.observe`, `finish_perm`,
`profile_accounts`.
-/
import Logmon.Collector.Exact
import Logmon.Collector.Project
import Logmon.Gelf.Message
import Logmon.Lib.Groups
import Logmon.Lib.Hex
import Logmon.Lib.Ranking
import Mathlib.Data.String.Basic

namespace Logmon

open Lib

/-! ### Axes and keys -/

/-- Which dimension to group along. -/
inductive Axis
  | none
  | level
  | message
  | host
  | facility
  | file
  | line
  | traceId
  | spanId
  /-- Emitter fields, named by the group keys. -/
  | field
  deriving DecidableEq

def Axis.asStr : Axis → String
  | .none => "none"
  | .level => "level"
  | .message => "message"
  | .host => "host"
  | .facility => "facility"
  | .file => "file"
  | .line => "line"
  | .traceId => "trace_id"
  | .spanId => "span_id"
  | .field => "field"

/-- One member of a group key. -/
inductive MemberKey
  | value (s : String)
  | absent
  | overflow
  deriving DecidableEq

def MemberKey.label : MemberKey → String
  | .value s => s
  | .absent => absentLabel
  | .overflow => overflowLabel

inductive ReservedBucket
  | absent
  | overflow
  deriving DecidableEq

/-- Which reserved bucket a whole key is, if any. -/
def reservedKind (key : List MemberKey) : Option ReservedBucket :=
  if ∀ m ∈ key, m = .absent then some .absent else if ∀ m ∈ key, m = .overflow then some .overflow else none

/-- A single key renders bare. -/
def groupKeyLabel : List MemberKey → String
  | [m] => m.label
  | key => String.intercalate " / " (key.map MemberKey.label)

theorem reservedKind_absent {key : List MemberKey} : reservedKind key = some .absent ↔ ∀ m ∈ key, m = .absent := by
  unfold reservedKind
  by_cases h : ∀ m ∈ key, m = .absent
  · rw [if_pos h]
    exact iff_of_true rfl h
  · rw [if_neg h]
    refine iff_of_false (fun hk => ?_) h
    split at hk <;> cases hk

theorem reservedKind_overflow {key : List MemberKey} (h : key ≠ []) :
    reservedKind key = some .overflow ↔ ∀ m ∈ key, m = .overflow := by
  obtain ⟨m, hm⟩ := List.exists_mem_of_ne_nil key h
  unfold reservedKind
  constructor
  · intro hk
    split at hk
    · cases hk
    · split at hk
      · assumption
      · cases hk
  · intro hall
    have hnot : ¬ ∀ m ∈ key, m = .absent := fun habs => by
      have := (habs m hm).symm.trans (hall m hm)
      cases this
    rw [if_neg hnot, if_pos hall]

/-- `KEY_CAP`: the distinct keys before the fold. -/
def keyCap : ℕ := defaultGroupValueCap

/-! ### Accumulators -/

/-- Records by level. -/
@[ext] structure LevelCounts where
  trace : ℕ
  debug : ℕ
  info : ℕ
  warn : ℕ
  error : ℕ
  deriving DecidableEq

namespace LevelCounts

instance : Zero LevelCounts := ⟨⟨0, 0, 0, 0, 0⟩⟩

instance : Add LevelCounts :=
  ⟨fun a b => ⟨a.trace + b.trace, a.debug + b.debug, a.info + b.info, a.warn + b.warn, a.error + b.error⟩⟩

theorem zero_def : (0 : LevelCounts) = ⟨0, 0, 0, 0, 0⟩ := rfl

theorem add_def (a b : LevelCounts) :
    a + b = ⟨a.trace + b.trace, a.debug + b.debug, a.info + b.info, a.warn + b.warn, a.error + b.error⟩ := rfl

instance : AddCommMonoid LevelCounts where
  add_assoc a b c := by ext <;> simp [add_def, add_assoc]
  zero_add a := by ext <;> simp [add_def, zero_def]
  add_zero a := by ext <;> simp [add_def, zero_def]
  add_comm a b := by ext <;> simp [add_def, add_comm]
  nsmul := nsmulRec

/-- The records of all levels. -/
def total (c : LevelCounts) : ℕ := c.trace + c.debug + c.info + c.warn + c.error

theorem total_add (a b : LevelCounts) : (a + b).total = a.total + b.total := by
  simp only [total, add_def]
  omega

end LevelCounts

/-- One record of the level. -/
def Level.counts : Level → LevelCounts
  | .trace => ⟨1, 0, 0, 0, 0⟩
  | .debug => ⟨0, 1, 0, 0, 0⟩
  | .info => ⟨0, 0, 1, 0, 0⟩
  | .warn => ⟨0, 0, 0, 1, 0⟩
  | .error => ⟨0, 0, 0, 0, 1⟩

/-- `bump`. -/
def LevelCounts.bump (c : LevelCounts) (level : Level) : LevelCounts := c + level.counts

/-- One end of a row: a record's seq, with the time and the message of that
record. -/
structure RowEnd where
  seq : ℕ
  time : ℤ
  exemplar : String
  deriving DecidableEq

def LogEntry.rowEnd (e : LogEntry) : RowEnd := ⟨e.seq, e.timestamp, e.message⟩

/-- `Acc`: one group's accumulator. -/
structure GroupAcc where
  count : ℕ
  levels : LevelCounts
  first : RowEnd
  last : RowEnd

def GroupAcc.new (e : LogEntry) : GroupAcc := ⟨1, LevelCounts.bump 0 e.level, e.rowEnd, e.rowEnd⟩

/-- `Acc::observe`: the ends are chosen by seq. -/
def GroupAcc.observe (a : GroupAcc) (e : LogEntry) : GroupAcc where
  count := a.count + 1
  levels := a.levels.bump e.level
  first := if e.seq < a.first.seq then e.rowEnd else a.first
  last := if a.last.seq < e.seq then e.rowEnd else a.last

/-! ### The map -/

/-- What a value extraction produced for one member of one record. -/
inductive Extracted
  | value (s : String)
  | missing
  /-- Present, but null, an array or an object. -/
  | structured
  deriving DecidableEq

/-- `Display`. -/
def Level.displayName : Level → String
  | .error => "ERROR"
  | .warn => "WARN"
  | .info => "INFO"
  | .debug => "DEBUG"
  | .trace => "TRACE"

/-- Whether a JSON value can be a group key. -/
def isDimension : JsonValue → Bool
  | .string _ => true
  | .number _ => true
  | .bool _ => true
  | _ => false

def extractOpt : Option String → Extracted
  | some s => .value s
  | none => .missing

/-- `GroupMap::extract`: the value of member `i`. -/
def extract (axis : Axis) (keys : List String) (e : LogEntry) (i : ℕ) : Extracted :=
  match axis with
  | .none => .missing
  | .level => .value e.level.displayName
  | .message => .value e.message
  | .host => if e.host.isEmpty then .missing else .value e.host
  | .facility => extractOpt e.facility
  | .file => extractOpt e.file
  | .line => extractOpt (e.line.map toString)
  | .traceId => extractOpt (e.traceId.map (hex 32))
  | .spanId => extractOpt (e.spanId.map (hex 16))
  | .field =>
    match keys[i]? with
    | none => .missing
    | some name =>
      match e.additionalFields.lookup name with
      | none => .missing
      | some v => if isDimension v then .value v.text else .structured

def Extracted.member : Extracted → MemberKey
  | .value s => .value s
  | _ => .absent

/-- The key of a record, of `members` members. -/
def keyOf (axis : Axis) (keys : List String) (members : ℕ) (e : LogEntry) : List MemberKey :=
  (List.range members).map fun i => (extract axis keys e i).member

/-- The ends of the matched population. -/
structure Bounds where
  firstSeq : Option ℕ
  lastSeq : Option ℕ
  firstTime : Option ℤ
  lastTime : Option ℤ
  deriving DecidableEq

def Bounds.observe (b : Bounds) (e : LogEntry) : Bounds where
  firstSeq := if b.firstSeq.all (e.seq < ·) then some e.seq else b.firstSeq
  firstTime := if b.firstSeq.all (e.seq < ·) then some e.timestamp else b.firstTime
  lastSeq := if b.lastSeq.all (· < e.seq) then some e.seq else b.lastSeq
  lastTime := if b.lastSeq.all (· < e.seq) then some e.timestamp else b.lastTime

/-- Matched records folded into group rows. -/
structure GroupMap where
  axis : Axis
  keys : List String
  accs : FMap (List MemberKey) GroupAcc
  capped : Bool
  /-- Per member: records with a value of it. -/
  present : List ℕ
  /-- Per member: records whose value cannot be a dimension. -/
  structured : List ℕ
  /-- Records with an additional field of the name of a built-in axis. -/
  alt : List ℕ
  levels : LevelCounts
  matched : ℕ
  bounds : Bounds

/-- The members of a key. -/
def memberCount (axis : Axis) (keys : List String) : ℕ := if axis = .field then max keys.length 1 else 1

theorem memberCount_pos (axis : Axis) (keys : List String) : 0 < memberCount axis keys := by
  unfold memberCount
  split <;> omega

namespace GroupMap

def new (axis : Axis) (keys : List String) : GroupMap where
  axis
  keys
  accs := ∅
  capped := false
  present := List.replicate (memberCount axis keys) 0
  structured := List.replicate (memberCount axis keys) 0
  alt := List.replicate (memberCount axis keys) 0
  levels := 0
  matched := 0
  bounds := ⟨none, none, none, none⟩

/-- A new key past the cap; the reserved buckets are exempt. -/
def folds (g : GroupMap) (key : List MemberKey) : Bool :=
  (reservedKind key).isNone && (g.accs.get? key).isNone && g.accs.entries.length ≥ keyCap

/-- The row a record comes under. -/
def rowKey (g : GroupMap) (e : LogEntry) : List MemberKey :=
  let key := keyOf g.axis g.keys g.present.length e
  if g.folds key then List.replicate key.length .overflow else key

/-- Count the members that are of a kind. -/
def countMembers (counts : List ℕ) (extracted : List Extracted) (p : Extracted → Bool) : List ℕ :=
  List.zipWith (fun n x => if p x then n + 1 else n) counts extracted

/-- `GroupMap::observe`, for an axis there is. -/
def observeAxis (g : GroupMap) (e : LogEntry) : GroupMap :=
  let extracted := (List.range g.present.length).map (extract g.axis g.keys e)
  { g with
    accs := gather GroupAcc.new GroupAcc.observe g.accs (g.rowKey e) e
    capped := g.capped || g.folds (keyOf g.axis g.keys g.present.length e)
    present := countMembers g.present extracted fun x => match x with | .value _ => true | _ => false
    structured := countMembers g.structured extracted (· = .structured)
    alt := if g.axis ≠ .field ∧ (e.additionalFields.lookup g.axis.asStr).isSome then g.alt.modify 0 (· + 1)
      else g.alt }

/-- `GroupMap::observe`. -/
def observe (g : GroupMap) (e : LogEntry) : GroupMap :=
  let counted :=
    { g with matched := g.matched + 1, levels := g.levels.bump e.level, bounds := g.bounds.observe e }
  if g.axis = .none then counted else counted.observeAxis e

def observeAll (g : GroupMap) (es : List LogEntry) : GroupMap := es.foldl observe g

end GroupMap

/-! ### The rows -/

/-- One row of a profile. -/
structure LogGroup extends GroupAcc where
  key : String
  reserved : Option ReservedBucket

def groupRow (q : List MemberKey × GroupAcc) : LogGroup := ⟨q.2, groupKeyLabel q.1, reservedKind q.1⟩

/-- By count, the greatest first, then by key, then by the first seq. -/
def groupLe (a b : LogGroup) : Prop :=
  b.count < a.count ∨ b.count = a.count ∧ (a.key < b.key ∨ a.key = b.key ∧ a.first.seq ≤ b.first.seq)

instance : DecidableRel groupLe := fun _ _ => inferInstanceAs (Decidable (_ ∨ _))

instance : Std.Total groupLe := ⟨fun a b => by
  unfold groupLe
  rcases lt_trichotomy a.count b.count with hc | hc | hc
  · exact .inr (.inl hc)
  · rcases lt_trichotomy a.key b.key with hk | hk | hk
    · exact .inl (.inr ⟨hc.symm, .inl hk⟩)
    · rcases le_total a.first.seq b.first.seq with hs | hs
      · exact .inl (.inr ⟨hc.symm, .inr ⟨hk, hs⟩⟩)
      · exact .inr (.inr ⟨hc, .inr ⟨hk.symm, hs⟩⟩)
    · exact .inr (.inr ⟨hc, .inl hk⟩)
  · exact .inl (.inl hc)⟩

instance : IsTrans LogGroup groupLe := ⟨fun a b c hab hbc => by
  unfold groupLe at *
  rcases hab with hab | ⟨hab, hab'⟩
  · rcases hbc with hbc | ⟨hbc, -⟩ <;> exact .inl (by omega)
  · rcases hbc with hbc | ⟨hbc, hbc'⟩
    · exact .inl (by omega)
    · refine .inr ⟨by omega, ?_⟩
      rcases hab' with hk | ⟨hk, hs⟩
      · rcases hbc' with hk' | ⟨hk', -⟩
        · exact .inl (hk.trans hk')
        · exact .inl (hk' ▸ hk)
      · rcases hbc' with hk' | ⟨hk', hs'⟩
        · exact .inl (hk ▸ hk')
        · exact .inr ⟨hk.trans hk', hs.trans hs'⟩⟩

/-- `__absent__` before `__overflow__`. -/
def reservedRank : Option ReservedBucket → ℕ
  | some .absent => 0
  | _ => 1

/-- `GroupMap::finish`: the rows, and how many there are before they are cut.
Reserved buckets come last and are outside the budget. -/
def GroupMap.finish (order : MapOrder) (g : GroupMap) (topN : ℕ) : List LogGroup × ℕ :=
  if g.axis = .none then ([], 0)
  else
    let rows := (order.rows g.accs).map groupRow
    (((rows.filter (·.reserved.isNone)).insertionSort groupLe).take topN ++
        (rows.filter (·.reserved.isSome)).insertionSort fun a b => reservedRank a.reserved ≤ reservedRank b.reserved,
      g.accs.entries.length)

/-! ### One row -/

/-- The accumulator is that of these records. -/
structure AccOf (a : GroupAcc) (es : List LogEntry) : Prop where
  count : a.count = es.length
  levels : a.levels = (es.map fun e => e.level.counts).sum
  /-- Its first end is a record's, and no record's seq is lower. -/
  first : ∃ e ∈ es, a.first = e.rowEnd ∧ ∀ x ∈ es, e.seq ≤ x.seq
  last : ∃ e ∈ es, a.last = e.rowEnd ∧ ∀ x ∈ es, x.seq ≤ e.seq

theorem AccOf.new (e : LogEntry) : AccOf (.new e) [e] :=
  ⟨rfl, by simp [GroupAcc.new, LevelCounts.bump], ⟨e, by simp, rfl, by simp⟩, ⟨e, by simp, rfl, by simp⟩⟩

/-- **One record more.** -/
theorem AccOf.observe {a : GroupAcc} {es : List LogEntry} (h : AccOf a es) (e : LogEntry) :
    AccOf (a.observe e) (es ++ [e]) := by
  obtain ⟨hcount, hlevels, ⟨f, hf, hfirst, hfmin⟩, ⟨l, hl, hlast, hlmax⟩⟩ := h
  refine ⟨by simp [GroupAcc.observe, hcount], by simp [GroupAcc.observe, LevelCounts.bump, hlevels], ?_, ?_⟩
  · simp only [GroupAcc.observe, hfirst, List.mem_append, List.mem_singleton]
    by_cases hlt : e.seq < f.rowEnd.seq
    · refine ⟨e, .inr rfl, if_pos hlt, ?_⟩
      rintro x (hx | rfl)
      · exact hlt.le.trans (hfmin x hx)
      · exact le_rfl
    · refine ⟨f, .inl hf, if_neg hlt, ?_⟩
      rintro x (hx | rfl)
      · exact hfmin x hx
      · exact not_lt.mp hlt
  · simp only [GroupAcc.observe, hlast, List.mem_append, List.mem_singleton]
    by_cases hlt : l.rowEnd.seq < e.seq
    · refine ⟨e, .inr rfl, if_pos hlt, ?_⟩
      rintro x (hx | rfl)
      · exact (hlmax x hx).trans hlt.le
      · exact le_rfl
    · refine ⟨l, .inl hl, if_neg hlt, ?_⟩
      rintro x (hx | rfl)
      · exact hlmax x hx
      · exact not_lt.mp hlt

/-- What a group's records fold to. -/
theorem foldGroup_acc : ∀ {es : List LogEntry} {a : GroupAcc},
    foldGroup GroupAcc.new GroupAcc.observe es = some a → AccOf a es := by
  intro es
  induction es using List.reverseRecOn with
  | nil => exact fun h => nomatch h
  | append_singleton es e ih =>
    intro a h
    rw [foldGroup_concat] at h
    obtain rfl := Option.some.inj h
    cases hes : foldGroup GroupAcc.new GroupAcc.observe es with
    | none =>
      rw [(foldGroup_eq_none_iff _ _).mp hes]
      exact .new e
    | some a => exact (ih hes).observe e

/-! ### The walk -/

/-- The row each record of a walk came under. -/
def filings (g : GroupMap) : List LogEntry → List (List MemberKey × LogEntry)
  | [] => []
  | e :: es => (g.rowKey e, e) :: filings (g.observe e) es

theorem map_filings : ∀ (es : List LogEntry) (g : GroupMap), (filings g es).map Prod.snd = es
  | [], _ => rfl
  | e :: es, g => by rw [filings, List.map_cons, map_filings es]

def absentKey (members : ℕ) : List MemberKey := List.replicate members .absent

def overflowKey (members : ℕ) : List MemberKey := List.replicate members .overflow

theorem length_keyOf (axis : Axis) (keys : List String) (n : ℕ) (e : LogEntry) : (keyOf axis keys n e).length = n := by
  simp [keyOf]

theorem reservedKind_absentKey (n : ℕ) : reservedKind (absentKey n) = some .absent :=
  reservedKind_absent.mpr fun _ hm => List.eq_of_mem_replicate hm

theorem reservedKind_overflowKey {n : ℕ} (hn : 0 < n) : reservedKind (overflowKey n) = some .overflow :=
  (reservedKind_overflow (by simp [overflowKey]; omega)).mpr fun _ hm => List.eq_of_mem_replicate hm

/-- A record's own key is never the overflow row's. -/
theorem keyOf_ne_overflow {axis : Axis} {keys : List String} {n : ℕ} (hn : 0 < n) (e : LogEntry) :
    keyOf axis keys n e ≠ overflowKey n := by
  intro h
  have hmem : (extract axis keys e 0).member ∈ keyOf axis keys n e :=
    List.mem_map.mpr ⟨0, List.mem_range.mpr hn, rfl⟩
  rw [h] at hmem
  have := List.eq_of_mem_replicate hmem
  cases hx : extract axis keys e 0 <;> simp [hx, Extracted.member] at this

theorem reservedKind_keyOf {axis : Axis} {keys : List String} {n : ℕ} (hn : 0 < n) (e : LogEntry) :
    reservedKind (keyOf axis keys n e) ≠ some .overflow := by
  have hlen := length_keyOf axis keys n e
  have hne : keyOf axis keys n e ≠ [] := fun hnil => by
    rw [hnil, List.length_nil] at hlen
    omega
  intro h
  exact keyOf_ne_overflow hn e (List.eq_replicate_iff.mpr ⟨hlen, (reservedKind_overflow hne).mp h⟩)

/-- The key is the absent row's when no member has a value. -/
theorem keyOf_absent_iff {axis : Axis} {keys : List String} {n : ℕ} {e : LogEntry} :
    reservedKind (keyOf axis keys n e) = some .absent ↔ ∀ i < n, ∀ s, extract axis keys e i ≠ .value s := by
  rw [reservedKind_absent]
  simp only [keyOf, List.mem_map, List.mem_range, forall_exists_index, and_imp, forall_apply_eq_imp_iff₂]
  refine forall_congr' fun i => forall_congr' fun _ => ?_
  cases extract axis keys e i <;> simp [Extracted.member]

/-- What a walk over records holds after those filed so far. -/
structure ProfileWalk (axis : Axis) (keys : List String) (g : GroupMap) (filed : List (List MemberKey × LogEntry)) :
    Prop where
  axis_eq : g.axis = axis
  keys_eq : g.keys = keys
  members : g.present.length = memberCount axis keys
  rows : Gathered GroupAcc.new GroupAcc.observe g.accs filed
  /-- Each under its own key, or folded. -/
  own : ∀ q ∈ filed, q.1 = keyOf axis keys (memberCount axis keys) q.2 ∨
    reservedKind (keyOf axis keys (memberCount axis keys) q.2) = none ∧ q.1 = overflowKey (memberCount axis keys)
  capped : g.capped = true ↔ ∃ q ∈ filed, q.1 = overflowKey (memberCount axis keys)
  room : g.accs.entries.length ≤ keyCap + (if (g.accs.get? (absentKey (memberCount axis keys))).isSome then 1 else 0) +
    if (g.accs.get? (overflowKey (memberCount axis keys))).isSome then 1 else 0
  counts : (g.accs.entries.map fun q => q.2.count).sum = filed.length
  levels : (g.accs.entries.map fun q => q.2.levels).sum = (filed.map fun q => q.2.level.counts).sum

theorem ProfileWalk.new (axis : Axis) (keys : List String) : ProfileWalk axis keys (.new axis keys) [] where
  axis_eq := rfl
  keys_eq := rfl
  members := List.length_replicate
  rows := .empty
  own := by simp
  capped := by simp [GroupMap.new]
  room := Nat.zero_le _
  counts := rfl
  levels := rfl

/-- A new row finds room: the table is not full, or the row is reserved. -/
theorem room_gather {n : ℕ} {m : FMap (List MemberKey) GroupAcc} {k : List MemberKey} (e : LogEntry)
    (h : m.entries.length ≤
      keyCap + (if (m.get? (absentKey n)).isSome then 1 else 0) + if (m.get? (overflowKey n)).isSome then 1 else 0)
    (hk : k = absentKey n ∨ k = overflowKey n ∨ (m.get? k).isSome ∨ m.entries.length < keyCap)
    (hne : absentKey n ≠ overflowKey n) :
    (gather GroupAcc.new GroupAcc.observe m k e).entries.length ≤
      keyCap + (if ((gather GroupAcc.new GroupAcc.observe m k e).get? (absentKey n)).isSome then 1 else 0) +
        if ((gather GroupAcc.new GroupAcc.observe m k e).get? (overflowKey n)).isSome then 1 else 0 := by
  have hget : ∀ k', ((gather GroupAcc.new GroupAcc.observe m k e).get? k').isSome =
      (decide (k' = k) || (m.get? k').isSome) := by
    intro k'
    rw [gather, FMap.get?_insert]
    by_cases hkk : k' = k <;> simp [hkk]
  rw [length_gather, hget, hget]
  rcases hk with rfl | rfl | hk | hk
  · cases ha : (m.get? (absentKey n)).isSome <;> cases ho : (m.get? (overflowKey n)).isSome <;>
      simp [ha, ho, hne.symm] at h ⊢ <;> omega
  · cases ha : (m.get? (absentKey n)).isSome <;> cases ho : (m.get? (overflowKey n)).isSome <;>
      simp [ha, ho, hne] at h ⊢ <;> omega
  · rw [if_pos hk]
    refine h.trans ?_
    gcongr <;> split <;> simp_all
  · split <;> omega

theorem length_countMembers {counts : List ℕ} {extracted : List Extracted} {p : Extracted → Bool}
    (h : counts.length = extracted.length) : (GroupMap.countMembers counts extracted p).length = counts.length := by
  rw [GroupMap.countMembers, List.length_zipWith, h, min_self]

/-- **One record more**: it comes under its row, and the rest is as it was. -/
theorem ProfileWalk.observe {axis : Axis} (haxis : axis ≠ .none) {keys : List String} {g : GroupMap}
    {filed : List (List MemberKey × LogEntry)} (h : ProfileWalk axis keys g filed) (e : LogEntry) :
    ProfileWalk axis keys (g.observe e) (filed ++ [(g.rowKey e, e)]) := by
  obtain ⟨haxis_eq, hkeys_eq, hmembers, hrows, hown, hcapped, hroom, hcounts, hlevels⟩ := h
  have hn := memberCount_pos axis keys
  have hobserve : g.observe e = GroupMap.observeAxis
      { g with matched := g.matched + 1, levels := g.levels.bump e.level, bounds := g.bounds.observe e } e :=
    if_neg (by rwa [haxis_eq])
  have haccs : (g.observe e).accs = gather GroupAcc.new GroupAcc.observe g.accs (g.rowKey e) e := by
    rw [hobserve]; rfl
  have hkey : keyOf g.axis g.keys g.present.length e = keyOf axis keys (memberCount axis keys) e := by
    rw [haxis_eq, hkeys_eq, hmembers]
  have hcap : (g.observe e).capped = (g.capped || g.folds (keyOf axis keys (memberCount axis keys) e)) := by
    rw [hobserve, ← hkey]; rfl
  have hrow : g.rowKey e = if g.folds (keyOf axis keys (memberCount axis keys) e) then
      overflowKey (memberCount axis keys) else keyOf axis keys (memberCount axis keys) e := by
    rw [GroupMap.rowKey, hkey, length_keyOf]
    rfl
  refine ⟨?_, ?_, ?_, ?_, ?_, ?_, ?_, ?_, ?_⟩
  · rw [hobserve]; exact haxis_eq
  · rw [hobserve]; exact hkeys_eq
  · rw [hobserve]
    exact (length_countMembers (by simp)).trans hmembers
  · rw [haccs]
    exact hrows.gather (g.rowKey e) e
  · intro q hq
    rcases List.mem_append.mp hq with hq | hq
    · exact hown q hq
    · obtain rfl := List.mem_singleton.mp hq
      simp only [hrow]
      by_cases hf : g.folds (keyOf axis keys (memberCount axis keys) e) = true
      · rw [if_pos hf]
        refine .inr ⟨?_, rfl⟩
        simp only [GroupMap.folds, Bool.and_eq_true, Option.isNone_iff_eq_none] at hf
        exact hf.1.1
      · exact .inl (if_neg hf)
  · rw [hcap, Bool.or_eq_true, hcapped]
    simp only [List.mem_append, List.mem_singleton, or_and_right, exists_or, exists_eq_left, hrow]
    refine or_congr Iff.rfl ?_
    by_cases hf : g.folds (keyOf axis keys (memberCount axis keys) e) = true
    · rw [if_pos hf]
      exact iff_of_true hf rfl
    · rw [if_neg hf]
      exact iff_of_false hf (keyOf_ne_overflow hn e)
  · rw [haccs]
    refine room_gather e hroom ?_ ?_
    · by_cases hf : g.folds (keyOf axis keys (memberCount axis keys) e) = true
      · exact .inr (.inl (by rw [hrow, if_pos hf]))
      · rw [hrow, if_neg hf]
        simp only [GroupMap.folds, Bool.and_eq_true, Option.isNone_iff_eq_none, decide_eq_true_eq, not_and, ge_iff_le,
          not_le] at hf
        cases hk : reservedKind (keyOf axis keys (memberCount axis keys) e) with
        | none =>
          cases hget : g.accs.get? (keyOf axis keys (memberCount axis keys) e) with
          | none => exact .inr (.inr (.inr (hf ⟨hk, hget⟩)))
          | some a => exact .inr (.inr (.inl rfl))
        | some r =>
          left
          cases r with
          | absent => exact List.eq_replicate_iff.mpr ⟨length_keyOf axis keys _ e, reservedKind_absent.mp hk⟩
          | overflow => exact absurd hk (reservedKind_keyOf hn e)
    · intro heq
      have := (reservedKind_absentKey (memberCount axis keys)).symm.trans
        ((congrArg reservedKind heq).trans (reservedKind_overflowKey hn))
      cases this
  · rw [haccs, sum_gather GroupAcc.new GroupAcc.observe GroupAcc.count (fun _ => 1) (fun _ => rfl) (fun _ _ => rfl), hcounts,
      List.length_append, List.length_singleton]
  · rw [haccs, sum_gather GroupAcc.new GroupAcc.observe GroupAcc.levels (fun e => e.level.counts)
      (fun _ => zero_add _) (fun _ _ => rfl), hlevels, List.map_append, List.sum_append, List.map_singleton,
      List.sum_singleton]

/-- **A whole walk.** -/
theorem ProfileWalk.observeAll {axis : Axis} (haxis : axis ≠ .none) {keys : List String} : ∀ (es : List LogEntry) {g : GroupMap}
    {filed : List (List MemberKey × LogEntry)}, ProfileWalk axis keys g filed →
    ProfileWalk axis keys (g.observeAll es) (filed ++ filings g es)
  | [], g, filed, h => by rwa [filings, List.append_nil]
  | e :: es, g, filed, h => by
    rw [filings, List.append_cons]
    exact ProfileWalk.observeAll haxis es (h.observe haxis e)

/-! ### The rows returned -/

section
variable (order : MapOrder) {g : GroupMap}

theorem finish_snd (h : g.axis ≠ .none) (topN : ℕ) : (g.finish order topN).2 = g.accs.entries.length := by
  rw [GroupMap.finish, if_neg h]

theorem finish_fst (h : g.axis ≠ .none) (topN : ℕ) :
    (g.finish order topN).1 =
      ((((order.rows g.accs).map groupRow).filter (·.reserved.isNone)).insertionSort groupLe).take topN ++
        (((order.rows g.accs).map groupRow).filter (·.reserved.isSome)).insertionSort
          fun a b => reservedRank a.reserved ≤ reservedRank b.reserved := by
  rw [GroupMap.finish, if_neg h]

/-- Uncut, the rows are those of the map. -/
theorem finish_perm (h : g.axis ≠ .none) {topN : ℕ} (htop : g.accs.entries.length ≤ topN) :
    (g.finish order topN).1.Perm (g.accs.entries.map groupRow) := by
  rw [finish_fst order h]
  have hrows : ((order.rows g.accs).map groupRow).Perm (g.accs.entries.map groupRow) := (order.perm g.accs).map groupRow
  have hlen := hrows.length_eq
  rw [List.length_map] at hlen
  have hle : (((order.rows g.accs).map groupRow).filter (·.reserved.isNone)).length ≤ topN :=
    (List.length_filter_le _ _).trans (by rw [hrows.length_eq, List.length_map]; exact htop)
  rw [List.take_of_length_le (by rwa [List.length_insertionSort])]
  refine (((List.perm_insertionSort _ _).append (List.perm_insertionSort _ _)).trans ?_).trans hrows
  have hnot : ∀ r : LogGroup, r.reserved.isSome = !r.reserved.isNone := fun r => by cases r.reserved <;> rfl
  simp only [hnot]
  exact List.filter_append_perm _ _

theorem mem_finish (h : g.axis ≠ .none) {topN : ℕ} {r : LogGroup} (hr : r ∈ (g.finish order topN).1) :
    ∃ k a, g.accs.get? k = some a ∧ r = groupRow (k, a) := by
  rw [finish_fst order h, List.mem_append] at hr
  have hin : r ∈ (order.rows g.accs).map groupRow := by
    rcases hr with hr | hr
    · exact List.mem_of_mem_filter ((List.perm_insertionSort _ _).mem_iff.mp (List.mem_of_mem_take hr))
    · exact List.mem_of_mem_filter ((List.perm_insertionSort _ _).mem_iff.mp hr)
  obtain ⟨⟨k, a⟩, hq, rfl⟩ := List.mem_map.mp hin
  exact ⟨k, a, FMap.mem_iff.mp ((order.perm g.accs).mem_iff.mp hq), rfl⟩

end

/-! ### Every record is accounted for -/

/-- What the rows of a profile say of the records `filed` under them. -/
structure Accounted (order : MapOrder) (g : GroupMap) (filed : List (List MemberKey × LogEntry)) (es : List LogEntry) :
    Prop where
  /-- Every record comes under one row. -/
  filed_all : filed.map Prod.snd = es
  count : ∀ topN, (g.finish order topN).2 ≤ topN → ((g.finish order topN).1.map (·.count)).sum = es.length
  levels : ∀ topN, (g.finish order topN).2 ≤ topN →
    ((g.finish order topN).1.map (·.levels)).sum = (es.map fun e => e.level.counts).sum
  total : ∀ topN, (g.finish order topN).2 ≤ topN → ((g.finish order topN).1.map (·.levels.total)).sum = es.length
  /-- A row is the records under its key, its ends those of the lowest and the
  highest seq. -/
  row : ∀ topN, ∀ r ∈ (g.finish order topN).1, ∃ k, r.key = groupKeyLabel k ∧ r.reserved = reservedKind k ∧
    AccOf r.toGroupAcc (under filed k)
  /-- The absent row is the records with no member that is a value. -/
  absent : ∀ q ∈ filed, reservedKind q.1 = some .absent ↔
    ∀ i < memberCount g.axis g.keys, ∀ s, extract g.axis g.keys q.2 i ≠ .value s
  rows_le : ∀ topN, (g.finish order topN).2 ≤ keyCap + 2 ∧ (g.finish order topN).1.length ≤ (g.finish order topN).2
  /-- Capped exactly when a record with another key was folded. -/
  capped : g.capped = true ↔ ∃ q ∈ filed, reservedKind q.1 = some .overflow
  /-- Of the real rows, the greatest are shown; of the reserved, all. -/
  top : ∀ topN all, all = (g.finish order g.accs.entries.length).1 → ∃ omitted : List LogGroup,
    all.Perm ((g.finish order topN).1 ++ omitted) ∧ (∀ o ∈ omitted, o.reserved = none) ∧
      ((g.finish order topN).1.filter (·.reserved.isNone)).length =
        min topN (all.filter (·.reserved.isNone)).length ∧
      ∀ o ∈ omitted, ∀ r ∈ (g.finish order topN).1, r.reserved = none → o.count ≤ r.count

theorem sum_total : ∀ l : List LevelCounts, (l.map LevelCounts.total).sum = l.sum.total
  | [] => rfl
  | c :: l => by rw [List.map_cons, List.sum_cons, List.sum_cons, LevelCounts.total_add, sum_total l]

theorem total_counts (level : Level) : level.counts.total = 1 := by
  cases level <;> rfl

/-- The rows shown and the rows omitted. -/
theorem finish_top (order : MapOrder) {g : GroupMap} (h : g.axis ≠ .none) (topN : ℕ) :
    ∃ omitted : List LogGroup,
      (g.finish order g.accs.entries.length).1.Perm ((g.finish order topN).1 ++ omitted) ∧
        (∀ o ∈ omitted, o.reserved = none) ∧
        ((g.finish order topN).1.filter (·.reserved.isNone)).length =
          min topN ((g.finish order g.accs.entries.length).1.filter (·.reserved.isNone)).length ∧
        ∀ o ∈ omitted, ∀ r ∈ (g.finish order topN).1, r.reserved = none → o.count ≤ r.count := by
  rw [finish_fst order h, finish_fst order h]
  have hlen : ((order.rows g.accs).map groupRow).length = g.accs.entries.length := by
    rw [List.length_map, (order.perm g.accs).length_eq]
  generalize (order.rows g.accs).map groupRow = rows at hlen ⊢
  have hnone : ∀ r ∈ (rows.filter (·.reserved.isNone)).insertionSort groupLe, r.reserved.isNone = true := fun r hr =>
    (List.mem_filter.mp ((List.perm_insertionSort _ _).mem_iff.mp hr)).2
  have hsome : ∀ r ∈ (rows.filter (·.reserved.isSome)).insertionSort
      fun a b => reservedRank a.reserved ≤ reservedRank b.reserved, ¬ r.reserved.isNone = true := fun r hr => by
    have := (List.mem_filter.mp ((List.perm_insertionSort _ _).mem_iff.mp hr)).2
    simpa [Option.isSome_iff_ne_none] using this
  have hsorted : ((rows.filter (·.reserved.isNone)).insertionSort groupLe).Pairwise groupLe :=
    List.pairwise_insertionSort _ _
  have hfit : ((rows.filter (·.reserved.isNone)).insertionSort groupLe).length ≤ g.accs.entries.length := by
    rw [List.length_insertionSort, ← hlen]
    exact List.length_filter_le _ _
  rw [List.take_of_length_le hfit]
  generalize (rows.filter (·.reserved.isNone)).insertionSort groupLe = real at hnone hsorted ⊢
  generalize (rows.filter (·.reserved.isSome)).insertionSort
    (fun a b => reservedRank a.reserved ≤ reservedRank b.reserved) = reserved at hsome ⊢
  refine ⟨real.drop topN, ?_, fun o ho => ?_, ?_, fun o ho r hr hrnone => ?_⟩
  · have hsplit : real ++ reserved = real.take topN ++ (real.drop topN ++ reserved) := by
      rw [← List.append_assoc, List.take_append_drop]
    rw [hsplit, List.append_assoc]
    exact List.perm_append_comm.append_left _
  · exact Option.isNone_iff_eq_none.mp (hnone o (List.mem_of_mem_drop ho))
  · rw [List.filter_append, List.filter_append, List.filter_eq_nil_iff.mpr hsome, List.append_nil, List.append_nil,
      List.filter_eq_self.mpr fun r hr => hnone r (List.mem_of_mem_take hr), List.filter_eq_self.mpr hnone,
      List.length_take]
  · rcases List.mem_append.mp hr with hr | hr
    · have hle := rel_of_take_drop hsorted hr ho
      unfold groupLe at hle
      omega
    · exact absurd (Option.isNone_iff_eq_none.mpr hrnone) (hsome r hr)

theorem length_finish_le (order : MapOrder) {g : GroupMap} (h : g.axis ≠ .none) (topN : ℕ) :
    (g.finish order topN).1.length ≤ g.accs.entries.length := by
  obtain ⟨omitted, hperm, -⟩ := finish_top order h topN
  have hall := (finish_perm order h le_rfl).length_eq
  have := hperm.length_eq
  rw [List.length_append] at this
  rw [List.length_map] at hall
  omega

/-- **Every record is accounted for**, on every axis there is, whatever the
keys and the order in which the records come. -/
theorem profile_accounts (order : MapOrder) {axis : Axis} (haxis : axis ≠ .none) (keys : List String)
    (es : List LogEntry) :
    Accounted order ((GroupMap.new axis keys).observeAll es) (filings (.new axis keys) es) es := by
  have hw : ProfileWalk axis keys ((GroupMap.new axis keys).observeAll es) (filings (.new axis keys) es) :=
    ProfileWalk.observeAll haxis es (.new axis keys)
  have hsnd := map_filings es (.new axis keys)
  generalize (GroupMap.new axis keys).observeAll es = g at hw ⊢
  generalize filings (.new axis keys) es = filed at hw hsnd ⊢
  have hg : g.axis ≠ .none := by rw [hw.axis_eq]; exact haxis
  have hn := memberCount_pos axis keys
  have hlen : filed.length = es.length := by rw [← hsnd, List.length_map]
  have hperm : ∀ topN, (g.finish order topN).2 ≤ topN → (g.finish order topN).1.Perm (g.accs.entries.map groupRow) :=
    fun topN htop => finish_perm order hg (by rwa [finish_snd order hg] at htop)
  have hlevels : ∀ topN, (g.finish order topN).2 ≤ topN →
      ((g.finish order topN).1.map (·.levels)).sum = (es.map fun e => e.level.counts).sum := by
    intro topN htop
    rw [((hperm topN htop).map _).sum_eq, List.map_map, ← hsnd, List.map_map]
    exact hw.levels
  refine ⟨hsnd, ?_, hlevels, ?_, ?_, ?_, ?_, ?_, ?_⟩
  · intro topN htop
    rw [((hperm topN htop).map _).sum_eq, List.map_map, ← hlen]
    exact hw.counts
  · intro topN htop
    have htotal := sum_total ((g.finish order topN).1.map (·.levels))
    rw [List.map_map] at htotal
    refine htotal.trans ?_
    rw [hlevels topN htop, ← sum_total, List.map_map]
    simp [Function.comp_def, total_counts]
  · intro topN r hr
    obtain ⟨k, a, hget, rfl⟩ := mem_finish order hg hr
    exact ⟨k, rfl, rfl, foldGroup_acc ((hw.rows k).symm.trans hget)⟩
  · intro q hq
    rw [hw.axis_eq, hw.keys_eq]
    rcases hw.own q hq with hown | ⟨hnone, hover⟩
    · rw [hown, keyOf_absent_iff]
    · rw [hover, reservedKind_overflowKey hn, ← keyOf_absent_iff, hnone]
      simp
  · intro topN
    rw [finish_snd order hg]
    refine ⟨hw.room.trans ?_, length_finish_le order hg topN⟩
    split <;> split <;> omega
  · rw [hw.capped]
    refine exists_congr fun q => and_congr_right fun hq => ?_
    constructor
    · intro h
      rw [h, reservedKind_overflowKey hn]
    · intro h
      rcases hw.own q hq with hown | ⟨-, hover⟩
      · rw [hown] at h
        exact absurd h (reservedKind_keyOf hn q.2)
      · exact hover
  · rintro topN all rfl
    exact finish_top order hg topN

theorem profile_accounts_two :
    (((((GroupMap.new .level []).observeAll [.blank 1, .blank 2]).finish .asListed 20).1.map (·.count)).sum = 2) :=
  (profile_accounts .asListed (by decide) [] [.blank 1, .blank 2]).count 20 (by decide)

end Logmon
