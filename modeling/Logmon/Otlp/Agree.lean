/-
# Values over both transports

A value of an export request, over gRPC as it is and over HTTP as its JSON
encoding reads. The HTTP handler knows no bytes values, and takes a value it
does not know for null where gRPC passes it over. So the values read alike are
those that hold none of these (`plain_iff`), of the pairs of a map only the
last of each key counts (`plainPairs_iff`), and a resource's name is read
alike unless it is bytes (`namedAlike_iff`).

Key definitions: `Valued`, `Plain`, `PlainPairs`, `NamedAlike`.
Key theorems: `lastAlike_cons_iff`, `plain_iff`, `plainPairs_iff`,
`extractJsonResourceAttrs_encode`, `namedAlike_iff`.
-/
import Logmon.Otlp.Encoding

namespace Logmon

open Lib

variable {D : Type} {W : WireEnv D} (N : Encoder W)

/-! ### Values -/

/-- The pairs give the key a value. -/
def Valued (key : String) (kvs : List (KeyValue D)) : Prop := ∃ v, (key, some v) ∈ kvs

mutual

/-- A value both transports read alike: it is set, holds no bytes and no unset
value, and its lists are written. -/
def Plain : AnyValue D → Prop
  | .string _ => True
  | .int _ => True
  | .double _ => True
  | .bool _ => True
  | .bytes _ => False
  | .array values => N.writes values.isEmpty = true ∧ PlainValues values
  | .kvlist values => N.writes values.isEmpty = true ∧ PlainPairs values
  | .unset => False

def PlainValues : List (AnyValue D) → Prop
  | [] => True
  | v :: values => Plain v ∧ PlainValues values

/-- Of the pairs of a key only the last with a value counts. A key that is not
written has none that is set. -/
def PlainPairs : List (String × Option (AnyValue D)) → Prop
  | [] => True
  | (_, none) :: values => PlainPairs values
  | (key, some v) :: values =>
    (if N.writes key.isEmpty then Valued key values ∨ Plain v else v = .unset) ∧ PlainPairs values

end

theorem length_valuesToJson_le : ∀ values : List (AnyValue D), (valuesToJson values).length ≤ values.length := by
  intro values
  induction values with
  | nil => simp [valuesToJson]
  | cons v values ih =>
    rw [valuesToJson, List.length_append, List.length_cons]
    have hone := Option.length_toList_le (o := anyValueToJson v)
    omega

theorem length_httpValues : ∀ values : List (AnyValue D), (httpValues N values).length = values.length := by
  intro values
  induction values with
  | nil => simp [httpValues]
  | cons v values ih => rw [httpValues, List.length_cons, List.length_cons, ih]

theorem anyValueToJson_eq_none_iff {v : AnyValue D} : anyValueToJson v = none ↔ v = .unset := by
  cases v <;> simp [anyValueToJson]

/-- Over gRPC no value is null. -/
theorem anyValueToJson_ne_null (v : AnyValue D) : anyValueToJson v ≠ some .null := by
  cases v <;> simp [anyValueToJson]

variable {N}

theorem mem_keyValuesToJson {k : String} {j : Json D} : ∀ {kvs : List (KeyValue D)},
    (k, j) ∈ keyValuesToJson kvs ↔ ∃ v, (k, some v) ∈ kvs ∧ anyValueToJson v = some j := by
  intro kvs
  induction kvs with
  | nil => simp [keyValuesToJson]
  | cons kv kvs ih =>
    obtain ⟨key, none | v⟩ := kv
    · rw [keyValuesToJson, ih]
      simp
    rw [keyValuesToJson, List.mem_append, ih]
    constructor
    · rintro (h | ⟨w, hw, hj⟩)
      · obtain ⟨w, hw, he⟩ := Option.map_eq_some_iff.mp (Option.mem_toList.mp h)
        obtain ⟨rfl, rfl⟩ := Prod.mk.inj he
        exact ⟨v, List.mem_cons_self, hw⟩
      · exact ⟨w, List.mem_cons_of_mem _ hw, hj⟩
    · rintro ⟨w, hw, hj⟩
      rcases List.mem_cons.mp hw with he | hw
      · obtain ⟨rfl, hv⟩ := Prod.mk.inj he
        obtain rfl := Option.some.inj hv
        refine .inl (Option.mem_toList.mpr ?_)
        rw [hj]
        rfl
      · exact .inr ⟨w, hw, hj⟩

theorem mem_httpPairs {k : String} {j : Json D} : ∀ {kvs : List (KeyValue D)},
    (k, j) ∈ httpPairs N kvs ↔ N.writes k.isEmpty = true ∧ ∃ v, (k, some v) ∈ kvs ∧ httpValue N v = j := by
  intro kvs
  induction kvs with
  | nil => simp [httpPairs]
  | cons kv kvs ih =>
    obtain ⟨key, none | v⟩ := kv
    · rw [httpPairs, ih]
      simp
    rw [httpPairs]
    by_cases hw : N.writes key.isEmpty = true
    · rw [if_pos hw, List.mem_cons, ih]
      constructor
      · rintro (he | ⟨hk, w, hmem, hj⟩)
        · obtain ⟨rfl, rfl⟩ := Prod.mk.inj he
          exact ⟨hw, v, List.mem_cons_self, rfl⟩
        · exact ⟨hk, w, List.mem_cons_of_mem _ hmem, hj⟩
      · rintro ⟨hk, w, hmem, rfl⟩
        rcases List.mem_cons.mp hmem with he | hmem
        · obtain ⟨rfl, hv⟩ := Prod.mk.inj he
          obtain rfl := Option.some.inj hv
          exact .inl rfl
        · exact .inr ⟨hk, w, hmem, rfl⟩
    · rw [if_neg hw, ih]
      constructor
      · rintro ⟨hk, w, hmem, hj⟩
        exact ⟨hk, w, List.mem_cons_of_mem _ hmem, hj⟩
      · rintro ⟨hk, w, hmem, hj⟩
        rcases List.mem_cons.mp hmem with he | hmem
        · obtain ⟨rfl, -⟩ := Prod.mk.inj he
          exact absurd hk hw
        · exact ⟨hk, w, hmem, hj⟩

/-- The last pairs of two lists agree. -/
def LastAlike (l m : List (String × Json D)) : Prop := ∀ k, lastOf l k = lastOf m k

theorem lastOf_httpPairs_eq_none {k : String} {kvs : List (KeyValue D)}
    (h : N.writes k.isEmpty = true → ¬ Valued k kvs) : lastOf (httpPairs N kvs) k = none := by
  cases hl : lastOf (httpPairs N kvs) k with
  | none => rfl
  | some j =>
    obtain ⟨hw, v, hv, -⟩ := mem_httpPairs.mp (mem_of_lastOf hl)
    exact absurd ⟨v, hv⟩ (h hw)

theorem lastOf_keyValuesToJson_eq_none {k : String} {kvs : List (KeyValue D)} (h : ¬ Valued k kvs) :
    lastOf (keyValuesToJson kvs) k = none := by
  cases hl : lastOf (keyValuesToJson kvs) k with
  | none => rfl
  | some j =>
    obtain ⟨v, hv, -⟩ := mem_keyValuesToJson.mp (mem_of_lastOf hl)
    exact absurd ⟨v, hv⟩ h

/-- Where a key has a value and none that is set, the handler reads null. -/
theorem lastOf_httpPairs_null {k : String} {kvs : List (KeyValue D)} {x : Json D}
    (hg : lastOf (keyValuesToJson kvs) k = none) (hh : lastOf (httpPairs N kvs) k = some x) : x = .null := by
  obtain ⟨-, v, hv, rfl⟩ := mem_httpPairs.mp (mem_of_lastOf hh)
  cases hj : anyValueToJson v with
  | none =>
    rw [anyValueToJson_eq_none_iff.mp hj, httpValue]
  | some j =>
    have := lastOf_isSome_of_mem (mem_keyValuesToJson.mpr ⟨v, hv, hj⟩)
    rw [hg] at this
    cases this

/-- One more pair in front. -/
theorem lastAlike_cons_iff (key : String) (v : AnyValue D) (kvs : List (KeyValue D)) :
    LastAlike (keyValuesToJson ((key, some v) :: kvs)) (httpPairs N ((key, some v) :: kvs)) ↔
      (if N.writes key.isEmpty then Valued key kvs ∨ anyValueToJson v = some (httpValue N v) else v = .unset) ∧
        LastAlike (keyValuesToJson kvs) (httpPairs N kvs) := by
  have hg : ∀ k, lastOf (keyValuesToJson ((key, some v) :: kvs)) k =
      (lastOf (keyValuesToJson kvs) k).or (if key = k then anyValueToJson v else none) := by
    intro k
    rw [keyValuesToJson, lastOf_append]
    cases anyValueToJson v with
    | none => rw [ite_self]; rfl
    | some j =>
      refine congrArg _ ?_
      rw [Option.map_some, Option.toList_some, lastOf_cons, lastOf_nil, Option.none_or]
  unfold LastAlike
  simp only [hg]
  by_cases hw : N.writes key.isEmpty = true
  · have hh : ∀ k, lastOf (httpPairs N ((key, some v) :: kvs)) k =
        (lastOf (httpPairs N kvs) k).or (if key = k then some (httpValue N v) else none) := by
      intro k
      rw [httpPairs, if_pos hw, lastOf_cons]
    simp only [hh, if_pos hw]
    constructor
    · intro h
      have hkey := h key
      rw [if_pos rfl, if_pos rfl] at hkey
      refine ⟨?_, fun k => ?_⟩
      · by_cases hvalued : Valued key kvs
        · exact .inl hvalued
        · rw [lastOf_keyValuesToJson_eq_none hvalued, lastOf_httpPairs_eq_none fun _ => hvalued] at hkey
          exact .inr hkey
      · by_cases hk : key = k
        · subst hk
          cases hgk : lastOf (keyValuesToJson kvs) key with
          | none =>
            cases hhk : lastOf (httpPairs N kvs) key with
            | none => rfl
            | some x =>
              -- the handler would read the null that is passed over
              rw [hgk, hhk, lastOf_httpPairs_null hgk hhk, Option.none_or, Option.some_or] at hkey
              exact absurd hkey (anyValueToJson_ne_null v)
          | some j =>
            obtain ⟨w, hmem, -⟩ := mem_keyValuesToJson.mp (mem_of_lastOf hgk)
            have hsome := lastOf_isSome_of_mem (mem_httpPairs.mpr ⟨hw, w, hmem, rfl⟩)
            obtain ⟨x, hx⟩ := Option.isSome_iff_exists.mp hsome
            rw [hgk, hx, Option.some_or, Option.some_or] at hkey
            rw [hx, hkey]
        · have := h k
          rwa [if_neg hk, if_neg hk, Option.or_none, Option.or_none] at this
    · rintro ⟨hfirst, h⟩ k
      rw [h k]
      by_cases hk : key = k
      · subst hk
        rw [if_pos rfl, if_pos rfl]
        rcases hfirst with ⟨w, hmem⟩ | hfirst
        · obtain ⟨x, hx⟩ := Option.isSome_iff_exists.mp (lastOf_isSome_of_mem (mem_httpPairs.mpr ⟨hw, w, hmem, rfl⟩))
          rw [hx, Option.some_or, Option.some_or]
        · rw [hfirst]
      · rw [if_neg hk, if_neg hk]
  · have hh : ∀ k, lastOf (httpPairs N ((key, some v) :: kvs)) k = lastOf (httpPairs N kvs) k := by
      intro k
      rw [httpPairs, if_neg hw]
    simp only [hh, if_neg hw]
    constructor
    · intro h
      have hkey := h key
      rw [if_pos rfl, lastOf_httpPairs_eq_none fun hw' => absurd hw' hw, Option.or_eq_none_iff] at hkey
      refine ⟨anyValueToJson_eq_none_iff.mp hkey.2, fun k => ?_⟩
      have := h k
      rwa [hkey.2, ite_self, Option.or_none] at this
    · rintro ⟨rfl, h⟩ k
      rw [anyValueToJson, ite_self, Option.or_none, h k]

mutual

/-- **The plain values are those read alike.** -/
theorem plain_iff : ∀ v : AnyValue D, anyValueToJson v = some (httpValue N v) ↔ Plain N v
  | .string s => by simp [anyValueToJson, httpValue, Plain]
  | .int n => by simp [anyValueToJson, httpValue, Plain]
  | .double d => by simp [anyValueToJson, httpValue, Plain]
  | .bool b => by simp [anyValueToJson, httpValue, Plain]
  | .bytes b => by simp [anyValueToJson, httpValue, Plain]
  | .array values => by
    rw [anyValueToJson, httpValue, Plain, ← plainValues_iff values]
    by_cases hw : N.writes values.isEmpty = true <;> simp [hw]
  | .kvlist values => by
    rw [anyValueToJson, httpValue, Plain, ← plainPairs_iff values, LastAlike, ← collect_eq_iff]
    by_cases hw : N.writes values.isEmpty = true <;> simp [hw]
  | .unset => by simp [anyValueToJson, Plain]

theorem plainValues_iff : ∀ values : List (AnyValue D), valuesToJson values = httpValues N values ↔ PlainValues N values
  | [] => by simp [valuesToJson, httpValues, PlainValues]
  | v :: values => by
    rw [valuesToJson, httpValues, PlainValues, ← plain_iff v, ← plainValues_iff values]
    cases hj : anyValueToJson v with
    | none =>
      have hlen := length_valuesToJson_le values
      have hlen' := length_httpValues N values
      constructor
      · intro h
        have := congrArg List.length h
        simp only [Option.toList_none, List.nil_append, List.length_cons] at this
        omega
      · rintro ⟨h, -⟩
        cases h
    | some j => simp

theorem plainPairs_iff : ∀ kvs : List (KeyValue D),
    LastAlike (keyValuesToJson kvs) (httpPairs N kvs) ↔ PlainPairs N kvs
  | [] => by simp [keyValuesToJson, httpPairs, PlainPairs, LastAlike]
  | (key, none) :: kvs => by
    rw [keyValuesToJson, httpPairs, PlainPairs, plainPairs_iff kvs]
  | (key, some v) :: kvs => by
    rw [lastAlike_cons_iff, PlainPairs, plain_iff v, plainPairs_iff kvs]

end

theorem attrs_agree_iff (kvs : List (KeyValue D)) :
    attrsToJsonMap kvs = collect (httpPairs N kvs) ↔ PlainPairs N kvs := by
  rw [← plainPairs_iff kvs]
  exact collect_eq_iff

/-! ### Names -/

def AnyValue.isBytes : AnyValue D → Bool
  | .bytes _ => true
  | _ => false

/-- The text of a resource's attribute, and whether it is that of bytes. -/
def nameText (W : WireEnv D) (kv : KeyValue D) : Option (String × String × Bool) :=
  kv.2.bind fun v => (pairText W v).map fun t => (kv.1, t, v.isBytes)

def nameTexts (W : WireEnv D) (kvs : List (KeyValue D)) : List (String × String × Bool) := kvs.filterMap (nameText W)

/-- The last text of the key is not that of bytes, or the last that is not
reads the same. -/
def NamedAlike (W : WireEnv D) (key : String) (kvs : List (KeyValue D)) : Prop :=
  ∀ t, lastOf (nameTexts W kvs) key = some (t, true) →
    lastOf ((nameTexts W kvs).filter fun q => !q.2.2) key = some (t, false)

/-- The names are the last of their keys. -/
theorem extractResourceAttrs_eq (attrs : List (String × String)) : extractResourceAttrs attrs =
    ((lastOf attrs "service.name").getD "unknown", (lastOf attrs "host.name").getD "unknown") := by
  induction attrs using List.reverseRecOn with
  | nil => rfl
  | append_singleton attrs q ih =>
    unfold extractResourceAttrs at ih ⊢
    rw [List.foldl_concat, ih, lastOf_concat, lastOf_concat]
    by_cases hs : q.1 = "service.name"
    · rw [if_pos hs, if_pos hs, if_neg (by rw [hs]; decide)]
      rfl
    · by_cases hh : q.1 = "host.name"
      · rw [if_neg hs, if_pos hh, if_neg hs, if_pos hh]
        rfl
      · rw [if_neg hs, if_neg hh, if_neg hs, if_neg hh]

theorem keyValuesToPairs_eq (kvs : List (KeyValue D)) :
    keyValuesToPairs W kvs = (nameTexts W kvs).map fun q => (q.1, q.2.1) := by
  unfold keyValuesToPairs nameTexts
  rw [List.map_filterMap]
  refine List.filterMap_congr fun kv _ => ?_
  unfold nameText
  cases kv.2 with
  | none => rfl
  | some v =>
    rw [Option.bind_some, Option.bind_some, Option.map_map]
    rfl

/-- Over HTTP only bytes have no text. -/
theorem extractJsonAttrStringValue_encode (v : AnyValue D) :
    extractJsonAttrStringValue W (encodeValue N v) = if v.isBytes then none else pairText W v := by
  cases v with
  | double d => simp [encodeValue, extractJsonAttrStringValue, get_single, N.number_reads, AnyValue.isBytes, pairText]
  | unset => simp [encodeValue, extractJsonAttrStringValue, Json.get, AnyValue.isBytes, pairText]
  | _ => simp [encodeValue, extractJsonAttrStringValue, get_single, Json.asStr, Json.asBool, AnyValue.isBytes, pairText]

theorem encodeKeyValues_eq : ∀ kvs : List (KeyValue D), encodeKeyValues N kvs = kvs.map fun kv =>
    .object (N.textField "key" kv.1 ++ messageField "value" (kv.2.map (encodeValue N)))
  | [] => by rw [encodeKeyValues, List.map_nil]
  | (key, none) :: kvs => by
    rw [encodeKeyValues, encodeKeyValues_eq kvs, List.map_cons, Option.map_none, messageField, Option.map_none,
      Option.toList_none, List.append_nil]
  | (key, some v) :: kvs => by
    rw [encodeKeyValues, encodeKeyValues_eq kvs, List.map_cons]
    rfl

/-- A resource's attribute as the handler reads it. -/
theorem nameText_encode (kv : KeyValue D) :
    ((jsonKey (.object (N.textField "key" kv.1 ++ messageField "value" (kv.2.map (encodeValue N))))).bind fun key =>
      ((Json.object (N.textField "key" kv.1 ++ messageField "value" (kv.2.map (encodeValue N)))).get "value").bind
        fun v => (extractJsonAttrStringValue W v).map (key, ·)) =
      ((nameText W kv).filter fun q => N.writes q.1.isEmpty && !q.2.2).map fun q => (q.1, q.2.1) := by
  rw [jsonKey_pair kv.1 _ (by rw [valueOf_messageField, if_neg (by decide)]), value_pair]
  unfold nameText
  cases kv.2 with
  | none => cases N.writes kv.1.isEmpty <;> rfl
  | some v =>
    have hread := extractJsonAttrStringValue_encode (N := N) v
    cases hw : N.writes kv.1.isEmpty <;> cases hb : v.isBytes <;> cases ht : pairText W v <;>
      simp [hw, hb, ht, hread]

/-- The texts the handler reads of a resource. -/
theorem extractJsonResourceAttrs_encode {j : Json D} {resource : Option (List (KeyValue D))}
    (h : j.get "resource" = resource.map (encodeResource N)) :
    extractJsonResourceAttrs W j =
      ((nameTexts W (resource.getD [])).filter fun q => N.writes q.1.isEmpty && !q.2.2).map fun q => (q.1, q.2.1) := by
  have hread : ∀ attr : Json D, (do
        let key ← (← attr.get "key").asStr
        let val ← extractJsonAttrStringValue W (← attr.get "value")
        return (key, val)) =
      (jsonKey attr).bind fun key => (attr.get "value").bind fun v => (extractJsonAttrStringValue W v).map (key, ·) := by
    intro attr
    unfold jsonKey
    cases attr.get "key" with
    | none => rfl
    | some k =>
      cases hk : k.asStr with
      | none => simp [hk]
      | some key =>
        cases attr.get "value" with
        | none => simp [hk]
        | some v => cases hv : extractJsonAttrStringValue W v <;> simp [hk, hv]
  have hattrs : (((j.get "resource").bind (Json.get "attributes")).bind Json.asArray).getD [] =
      encodeKeyValues N (resource.getD []) := by
    rw [h]
    cases resource with
    | none => rw [Option.map_none, Option.bind_none, Option.bind_none, Option.getD_none, Option.getD_none, encodeKeyValues]
    | some kvs =>
      rw [Option.map_some, Option.bind_some, Option.getD_some]
      refine list_of_written (N := N) ?_
      show valueOf (N.listField "attributes" (encodeKeyValues N kvs)) "attributes" = _
      rw [Encoder.listField, valueOf_field, if_pos rfl]
  have hlist : extractJsonResourceAttrs W j = (encodeKeyValues N (resource.getD [])).filterMap fun attr =>
      (jsonKey attr).bind fun key => (attr.get "value").bind fun v => (extractJsonAttrStringValue W v).map (key, ·) := by
    rw [← hattrs]
    unfold extractJsonResourceAttrs
    cases ((j.get "resource").bind (Json.get "attributes")).bind Json.asArray with
    | none => rfl
    | some attrs => exact List.filterMap_congr fun attr _ => hread attr
  rw [hlist, encodeKeyValues_eq, List.filterMap_map, nameTexts, List.filter_filterMap, List.map_filterMap]
  exact List.filterMap_congr fun kv _ => nameText_encode kv

theorem isBytes_text {key t : String} {kvs : List (KeyValue D)} (h : (key, t, true) ∈ nameTexts W kvs) :
    t ≠ "unknown" := by
  obtain ⟨kv, -, hkv⟩ := List.mem_filterMap.mp h
  obtain ⟨v, -, hv⟩ := Option.bind_eq_some_iff.mp hkv
  obtain ⟨t', ht', he⟩ := Option.map_eq_some_iff.mp hv
  simp only [Prod.mk.injEq] at he
  obtain ⟨-, rfl, hbytes⟩ := he
  cases v with
  | bytes b =>
    obtain rfl := Option.some.inj ht'
    intro heq
    have hhead := congrArg (fun s : String => s.toList.head?) heq
    have hopen : (debugBytes b).toList.head? = some '[' := by
      unfold debugBytes
      rw [String.toList_append, String.toList_append]
      rfl
    simp only [hopen] at hhead
    cases hhead
  | _ => cases hbytes

/-- **A name is read alike** exactly where the last text is not that of bytes,
or makes no difference. -/
theorem namedAlike_iff {key : String} (hkey : key.isEmpty = false) (kvs : List (KeyValue D)) :
    (lastOf (keyValuesToPairs W kvs) key).getD "unknown" =
      (lastOf (((nameTexts W kvs).filter fun q => N.writes q.1.isEmpty && !q.2.2).map fun q => (q.1, q.2.1)) key).getD
        "unknown" ↔ NamedAlike W key kvs := by
  have hfilter : lastOf ((nameTexts W kvs).filter fun q => N.writes q.1.isEmpty && !q.2.2) key =
      lastOf ((nameTexts W kvs).filter fun q => !q.2.2) key :=
    lastOf_filter_congr (fun v => by simp only [hkey, writes_false, Bool.true_and]) _
  rw [keyValuesToPairs_eq, lastOf_map Prod.fst, lastOf_map Prod.fst, hfilter]
  unfold NamedAlike
  cases hlast : lastOf (nameTexts W kvs) key with
  | none =>
    have hnone : lastOf ((nameTexts W kvs).filter fun q => !q.2.2) key = none := by
      cases h : lastOf ((nameTexts W kvs).filter fun q => !q.2.2) key with
      | none => rfl
      | some x =>
        have := lastOf_isSome_of_mem (List.mem_of_mem_filter (mem_of_lastOf h))
        rw [hlast] at this
        cases this
    rw [hnone]
    simp
  | some x =>
    obtain ⟨t, b⟩ := x
    cases b with
    | false =>
      rw [lastOf_filter hlast rfl]
      simp
    | true =>
      have ht := isBytes_text (mem_of_lastOf hlast)
      have hkept : ∀ x, lastOf ((nameTexts W kvs).filter fun q => !q.2.2) key = some x → x.2 = false := by
        intro x hx
        simpa using (List.mem_filter.mp (mem_of_lastOf hx)).2
      rw [Option.map_some, Option.getD_some]
      constructor
      · rintro h t' ht'
        obtain rfl := (Prod.mk.inj (Option.some.inj ht')).1
        cases hx : lastOf ((nameTexts W kvs).filter fun q => !q.2.2) key with
        | none =>
          rw [hx] at h
          exact absurd h ht
        | some x =>
          obtain ⟨t', b⟩ := x
          rw [hx] at h
          obtain rfl : t = t' := h
          obtain rfl : b = false := hkept _ hx
          rfl
      · intro h
        rw [h t rfl]
        rfl

end Logmon
