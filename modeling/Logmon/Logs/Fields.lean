/-
# Fields of the log

`logs/fields.rs`: which fields the records of a buffer carry, on how many of
them each is present, and with which values. The dedicated slots of a record
have their rows from the start, so that one that is never filled shows at
zero; an additional field has a row of its own beside the slot of its name.

Two caps bound the map: past the first no new name gets a row, past the second
no new value of a field is counted. While neither is reached a row holds what
the records say of its field, and nothing else (`FieldWalk.observeAll`).

Key definitions: `ValueKind`, `FieldSource`, `RowKey`, `FieldAcc`, `builtins`,
`FieldMap.observe`, `FieldMap.finish`, `readings`, `Tallied`, `FieldWalk`.
Key theorems: `observe_eq`, `Tallied.observe`, `FieldWalk.bump`,
`FieldWalk.observeAll`.
-/
import Logmon.Filter.FieldSelector
import Logmon.Logs.Profile

namespace Logmon

open Lib

/-! ### Kinds and rows -/

inductive ValueKind
  | string
  | integer
  | float
  | bool
  /-- Integers and floats under one name. -/
  | number
  | mixed
  | other
  deriving DecidableEq

/-- Where a field's value lives on a record. -/
inductive FieldSource
  | builtin
  | additional
  /-- Lifted out of the additional fields by the parser. -/
  | promoted
  deriving DecidableEq

/-- `Debug`. -/
def FieldSource.debugName : FieldSource → String
  | .builtin => "Builtin"
  | .additional => "Additional"
  | .promoted => "Promoted"

/-- `NAME_CAP`. -/
def nameCap : ℕ := defaultGroupValueCap

/-- `DISTINCT_CAP`. -/
def distinctCap : ℕ := defaultGroupValueCap

/-- `kind_of`. A number is a float when its text has a point or an exponent. -/
def kindOf : JsonValue → ValueKind
  | .string _ => .string
  | .bool _ => .bool
  | .number text => if text.toList.any (fun c => c = '.' ∨ c = 'e') then .float else .integer
  | _ => .other

/-- `merge_kind`. -/
def mergeKind (a b : ValueKind) : ValueKind :=
  if a = b then a
  else
    match a, b with
    | .integer, .float | .float, .integer | .number, .integer | .integer, .number | .number, .float
    | .float, .number => .number
    | _, _ => .mixed

/-- A row is a source and a name, never the name alone. -/
structure RowKey where
  source : FieldSource
  name : String
  deriving DecidableEq

/-- `Acc`: one field's accumulator. -/
structure FieldAcc where
  present : ℕ
  counts : FMap String ℕ
  capped : Bool
  kind : Option ValueKind

/-- `Acc::default`. -/
def FieldAcc.empty : FieldAcc := ⟨0, ∅, false, none⟩

/-- `Acc::observe`. -/
def FieldAcc.observe (a : FieldAcc) (rendered : String) (kind : ValueKind) : FieldAcc :=
  let seen := { a with
    present := a.present + 1
    kind := some (match a.kind with
      | some k => mergeKind k kind
      | none => kind) }
  if a.counts.entries.length ≥ distinctCap ∧ (a.counts.get? rendered).isNone then { seen with capped := true }
  else { seen with counts := a.counts.upsert rendered 0 (· + 1) }

/-- `BUILTINS`: name, source, selector and kind of the fields that always have
a row. -/
def builtins : List (String × FieldSource × Option String × ValueKind) :=
  [("level", .builtin, some "l", .string), ("message", .builtin, some "m", .string),
    ("host", .builtin, some "h", .string), ("facility", .builtin, some "fa", .string),
    ("file", .builtin, some "fi", .string), ("line", .builtin, some "ln", .integer),
    ("trace_id", .promoted, none, .string), ("span_id", .promoted, none, .string)]

/-- `builtin_kind`. -/
def builtinKind (source : FieldSource) (name : String) : Option ValueKind :=
  (builtins.find? fun b => b.1 = name ∧ b.2.1 = source).map fun b => b.2.2.2

/-! ### The map -/

structure FieldMap where
  accs : FMap RowKey FieldAcc
  namesCapped : Bool

namespace FieldMap

def new : FieldMap where
  accs := builtins.foldl
    (fun m b => m.upsert ⟨b.2.1, b.1⟩ { FieldAcc.empty with kind := some b.2.2.2 } id) ∅
  namesCapped := false

def bump (m : FieldMap) (name : String) (source : FieldSource) (rendered : String) (kind : ValueKind) : FieldMap :=
  if (m.accs.get? ⟨source, name⟩).isNone ∧ m.accs.entries.length ≥ nameCap then { m with namesCapped := true }
  else { m with accs := m.accs.upsert ⟨source, name⟩ .empty fun a => a.observe rendered kind }

/-- The field of a slot that may be empty. -/
def bumpSlot (m : FieldMap) (name : String) (source : FieldSource) (kind : ValueKind) : Option String → FieldMap
  | some rendered => m.bump name source rendered kind
  | none => m

/-- `FieldMap::observe`. -/
def observe (m : FieldMap) (e : LogEntry) : FieldMap :=
  let m := m.bump "level" .builtin e.level.displayName .string
  let m := m.bump "message" .builtin e.message .string
  let m := if e.host.isEmpty then m else m.bump "host" .builtin e.host .string
  let m := m.bumpSlot "facility" .builtin .string e.facility
  let m := m.bumpSlot "file" .builtin .string e.file
  let m := m.bumpSlot "line" .builtin .integer (e.line.map toString)
  let m := m.bumpSlot "trace_id" .promoted .string (e.traceId.map (hex 32))
  let m := m.bumpSlot "span_id" .promoted .string (e.spanId.map (hex 16))
  e.additionalFields.foldl (fun m q => m.bump q.1 .additional q.2.text (kindOf q.2)) m

def observeAll (m : FieldMap) (es : List LogEntry) : FieldMap := es.foldl observe m

end FieldMap

/-! ### The rows -/

@[ext] structure TopValue where
  value : String
  count : ℕ
  deriving DecidableEq

/-- One field's row. -/
structure FieldStats where
  field : String
  source : FieldSource
  selector : Option String
  present : ℕ
  distinct : Option ℕ
  topValues : List TopValue
  kind : ValueKind
  deriving DecidableEq

/-- By count, the greatest first, then by value. -/
def topLe (a b : TopValue) : Prop := b.count < a.count ∨ b.count = a.count ∧ a.value ≤ b.value

instance : DecidableRel topLe := fun _ _ => inferInstanceAs (Decidable (_ ∨ _))

/-- By presence, the greatest first, then by name, then by source. -/
def rowLe (a b : FieldStats) : Prop :=
  b.present < a.present ∨
    b.present = a.present ∧ (a.field < b.field ∨ a.field = b.field ∧ a.source.debugName ≤ b.source.debugName)

instance : DecidableRel rowLe := fun _ _ => inferInstanceAs (Decidable (_ ∨ _))

section Finish

variable (env : ParseEnv) (order : MapOrder)

/-- The values shown. -/
def FieldAcc.top (a : FieldAcc) (topValues : ℕ) : List TopValue :=
  (((order.rows a.counts).map fun q => ⟨q.1, q.2⟩).insertionSort topLe).take topValues

/-- A row of the map, closed. -/
def fieldRow (topValues : ℕ) (key : RowKey) (a : FieldAcc) : FieldStats where
  field := key.name
  source := key.source
  selector :=
    match key.source with
    | .additional => additionalFieldSelector env key.name
    | _ => (builtins.find? fun b => b.1 = key.name ∧ b.2.1 = key.source).bind fun b => b.2.2.1
  present := a.present
  distinct := if a.capped then none else some a.counts.entries.length
  topValues := a.top order topValues
  kind := (a.kind.or (builtinKind key.source key.name)).getD .other

/-- `FieldMap::finish`. -/
def FieldMap.finish (m : FieldMap) (topValues : ℕ) : List FieldStats :=
  ((order.rows m.accs).map fun q => fieldRow env order topValues q.1 q.2).insertionSort rowLe

theorem mem_fieldRows {m : FieldMap} {topValues : ℕ} {row : FieldStats} (h : row ∈ m.finish env order topValues) :
    ∃ key a, m.accs.get? key = some a ∧ row = fieldRow env order topValues key a := by
  obtain ⟨⟨key, a⟩, hq, rfl⟩ := List.mem_map.mp ((List.perm_insertionSort _ _).mem_iff.mp h)
  exact ⟨key, a, FMap.mem_iff.mp ((order.perm m.accs).mem_iff.mp hq), rfl⟩

end Finish

/-! ### One field -/

/-- The accumulator is that of these values. -/
structure Tallied (a : FieldAcc) (values : List String) : Prop where
  present : a.present = values.length
  counts : a.capped = false → ∀ v, a.counts.get? v = if v ∈ values then some (values.count v) else none

theorem Tallied.new (kind : Option ValueKind) : Tallied { FieldAcc.empty with kind } [] := ⟨rfl, fun _ _ => rfl⟩

/-- **One value more.** -/
theorem Tallied.observe {a : FieldAcc} {values : List String} (h : Tallied a values) (rendered : String)
    (kind : ValueKind) : Tallied (a.observe rendered kind) (values ++ [rendered]) := by
  unfold FieldAcc.observe
  dsimp only
  split_ifs with hfull
  · refine ⟨by simp [h.present], fun hc => (Bool.noConfusion hc)⟩
  · refine ⟨by simp [h.present], fun hc v => ?_⟩
    rw [FMap.upsert, FMap.get?_insert, h.counts hc, h.counts hc, List.count_append, List.count_singleton]
    by_cases hv : v = rendered
    · subst hv
      rw [if_pos rfl, if_pos (List.mem_append_right _ (List.mem_singleton_self v))]
      by_cases hmem : v ∈ values
      · simp [hmem]
      · simp [hmem, List.count_eq_zero_of_not_mem hmem]
    · simp [hv, Ne.symm hv]

/-! ### The walk -/

/-- What a record says of its fields, in the order in which it is read. -/
def readings (e : LogEntry) : List (RowKey × String × ValueKind) :=
  let slot (name : String) (source : FieldSource) (kind : ValueKind) (value : Option String) :=
    value.toList.map fun rendered => ((⟨source, name⟩ : RowKey), rendered, kind)
  slot "level" .builtin .string (some e.level.displayName) ++
    (slot "message" .builtin .string (some e.message) ++
    (slot "host" .builtin .string (if e.host.isEmpty then none else some e.host) ++
    (slot "facility" .builtin .string e.facility ++
    (slot "file" .builtin .string e.file ++
    (slot "line" .builtin .integer (e.line.map toString) ++
    (slot "trace_id" .promoted .string (e.traceId.map (hex 32)) ++
    (slot "span_id" .promoted .string (e.spanId.map (hex 16)) ++
    e.additionalFields.map fun q => (⟨.additional, q.1⟩, q.2.text, kindOf q.2))))))))

namespace FieldMap

/-- The map after readings. -/
def read (m : FieldMap) (rs : List (RowKey × String × ValueKind)) : FieldMap :=
  rs.foldl (fun m r => m.bump r.1.name r.1.source r.2.1 r.2.2) m

theorem read_append (m : FieldMap) (rs ts : List (RowKey × String × ValueKind)) :
    m.read (rs ++ ts) = (m.read rs).read ts := List.foldl_append

theorem read_slot (m : FieldMap) (name : String) (source : FieldSource) (kind : ValueKind) (value : Option String) :
    m.read (value.toList.map fun rendered => (⟨source, name⟩, rendered, kind)) = m.bumpSlot name source kind value := by
  cases value <;> rfl

/-- Observing a record is reading what it says. -/
theorem observe_eq (m : FieldMap) (e : LogEntry) : m.observe e = m.read (readings e) := by
  have hhost : ∀ m : FieldMap, m.bumpSlot "host" .builtin .string (if e.host.isEmpty then none else some e.host) =
      if e.host.isEmpty then m else m.bump "host" .builtin e.host .string := by
    intro m
    split <;> rfl
  have hfields : ∀ m : FieldMap, m.read (e.additionalFields.map fun q => (⟨.additional, q.1⟩, q.2.text, kindOf q.2)) =
      e.additionalFields.foldl (fun m q => m.bump q.1 .additional q.2.text (kindOf q.2)) m := fun m =>
    List.foldl_map
  unfold readings
  simp only [read_append, read_slot, hhost, hfields]
  rfl

theorem observeAll_eq : ∀ (es : List LogEntry) (m : FieldMap), m.observeAll es = m.read (es.flatMap readings)
  | [], _ => rfl
  | e :: es, m => by
    rw [List.flatMap_cons, read_append, ← observe_eq]
    exact observeAll_eq es (m.observe e)

end FieldMap

/-- The values read under a key. -/
def valuesUnder (rs : List (RowKey × String × ValueKind)) (key : RowKey) : List String := (under rs key).map Prod.fst

theorem valuesUnder_append (rs ts : List (RowKey × String × ValueKind)) (key : RowKey) :
    valuesUnder (rs ++ ts) key = valuesUnder rs key ++ valuesUnder ts key := by
  simp [valuesUnder, under_append]

/-- The rows there are from the start. -/
def builtinKeys : List RowKey := builtins.map fun b => ⟨b.2.1, b.1⟩

/-- What the map holds after these readings. -/
structure FieldWalk (m : FieldMap) (rs : List (RowKey × String × ValueKind)) : Prop where
  known : ∀ key, (m.accs.get? key).isSome → key ∈ builtinKeys ∨ key ∈ rs.map Prod.fst
  row : m.namesCapped = false → ∀ key a, m.accs.get? key = some a → Tallied a (valuesUnder rs key)
  /-- What has no row was not read. -/
  none : m.namesCapped = false → ∀ key, m.accs.get? key = none → valuesUnder rs key = []

theorem FieldWalk.new : FieldWalk .new [] := by
  have hfold : ∀ (l : List (String × FieldSource × Option String × ValueKind)) (m : FMap RowKey FieldAcc),
      (∀ key a, m.get? key = some a → Tallied a [] ∧ key ∈ builtinKeys) → l ⊆ builtins → ∀ key a,
        (l.foldl (fun m b => m.upsert ⟨b.2.1, b.1⟩ { FieldAcc.empty with kind := some b.2.2.2 } id) m).get? key =
          some a → Tallied a [] ∧ key ∈ builtinKeys := by
    intro l
    induction l with
    | nil => exact fun m h _ => h
    | cons b l ih =>
      refine fun m h hl => ih _ (fun key a ha => ?_) fun x hx => hl (List.mem_cons_of_mem _ hx)
      dsimp only at ha
      rw [FMap.upsert, FMap.get?_insert] at ha
      by_cases hk : key = ⟨b.2.1, b.1⟩
      · rw [if_pos hk] at ha
        obtain rfl := Option.some.inj ha
        refine ⟨?_, hk ▸ List.mem_map.mpr ⟨b, hl List.mem_cons_self, rfl⟩⟩
        cases hget : m.get? ⟨b.2.1, b.1⟩ with
        | none => exact .new _
        | some a => exact (h _ a hget).1
      · rw [if_neg hk] at ha
        exact h key a ha
  have hnew := hfold builtins ∅ (fun key a h => by cases h) (List.Subset.refl _)
  refine ⟨fun key hkey => ?_, fun _ key a ha => (hnew key a ha).1, fun _ _ _ => rfl⟩
  obtain ⟨a, ha⟩ := Option.isSome_iff_exists.mp hkey
  exact .inl (hnew key a ha).2

/-- **One reading more.** -/
theorem FieldWalk.bump {m : FieldMap} {rs : List (RowKey × String × ValueKind)} (h : FieldWalk m rs)
    (r : RowKey × String × ValueKind) : FieldWalk (m.bump r.1.name r.1.source r.2.1 r.2.2) (rs ++ [r]) := by
  unfold FieldMap.bump
  split_ifs with hfull
  · refine ⟨fun key hkey => ?_, fun hc => Bool.noConfusion hc, fun hc => Bool.noConfusion hc⟩
    rw [List.map_append, List.mem_append, ← or_assoc]
    exact .inl (h.known key hkey)
  have hvalues : ∀ key, valuesUnder (rs ++ [r]) key = valuesUnder rs key ++ if r.1 = key then [r.2.1] else [] := by
    intro key
    have hone : valuesUnder [r] key = if r.1 = key then [r.2.1] else [] := by
      unfold valuesUnder
      rw [under_singleton]
      split <;> rfl
    rw [valuesUnder_append, hone]
  refine ⟨fun key hkey => ?_, fun hc key a ha => ?_, fun hc key ha => ?_⟩
  · rw [FMap.upsert, FMap.get?_insert] at hkey
    rw [List.map_append, List.mem_append, ← or_assoc]
    by_cases hk : key = r.1
    · exact .inr (List.mem_singleton.mpr hk)
    · rw [if_neg hk] at hkey
      exact .inl (h.known key hkey)
  · rw [FMap.upsert, FMap.get?_insert] at ha
    rw [hvalues]
    by_cases hk : key = r.1
    · rw [if_pos hk] at ha
      obtain rfl := Option.some.inj ha
      rw [if_pos hk.symm, hk]
      refine Tallied.observe ?_ _ _
      cases hget : m.accs.get? r.1 with
      | none =>
        rw [h.none hc r.1 hget]
        exact .new _
      | some a => exact h.row hc r.1 a hget
    · rw [if_neg hk] at ha
      rw [if_neg (Ne.symm hk), List.append_nil]
      exact h.row hc key a ha
  · rw [FMap.upsert, FMap.get?_insert] at ha
    rw [hvalues]
    by_cases hk : key = r.1
    · rw [if_pos hk] at ha
      cases ha
    · rw [if_neg hk] at ha
      rw [if_neg (Ne.symm hk), List.append_nil]
      exact h.none hc key ha

/-- **A whole walk.** -/
theorem FieldWalk.observeAll (es : List LogEntry) : FieldWalk (FieldMap.new.observeAll es) (es.flatMap readings) := by
  rw [FieldMap.observeAll_eq]
  have hread : ∀ (ts : List (RowKey × String × ValueKind)) {m : FieldMap} {rs : List (RowKey × String × ValueKind)},
      FieldWalk m rs → FieldWalk (m.read ts) (rs ++ ts) := by
    intro ts
    induction ts with
    | nil => exact fun h => by rwa [List.append_nil]
    | cons r ts ih =>
      intro m rs h
      rw [List.append_cons]
      exact ih (h.bump r)
  exact hread _ .new

end Logmon
