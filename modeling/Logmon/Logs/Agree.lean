/-
# Fields and profiles agree

`logs.fields` counts the values of every field, `logs.profile` the records
along one axis, each with its own reading of a record, its own caps and its own
sort. Where neither gives up they say the same: the real rows of the profile
are the values of the field, spelled and counted alike and in one order, and
the records without a value are the absent row (`fields_profile_agree`).

What the agreement comes from is that both read one value of a record
(`valuesUnder_readings`) and that both order by count and then by the text
(`top_eq_of_perm`).

Key definitions: `axisOf`, `keysOf`, `valueOn`, `SameCounts`.
Key theorems: `valuesUnder_readings`, `filed_of_uncapped`, `top_eq_of_perm`,
`fields_profile_agree`.
-/
import Logmon.Logs.Fields

namespace Logmon

open Lib

/-! ### One record -/

/-- The axis a row is the profile of. -/
def axisOf (source : FieldSource) (name : String) : Axis :=
  match source with
  | .additional => .field
  | _ => ([.level, .message, .host, .facility, .file, .line, .traceId, .spanId].find? (·.asStr = name)).getD .none

/-- The group keys of that profile. -/
def keysOf (source : FieldSource) (name : String) : List String :=
  match source with
  | .additional => [name]
  | _ => []

/-- The value of a record on an axis. -/
def valueOn (axis : Axis) (keys : List String) (e : LogEntry) : Option String :=
  match extract axis keys e 0 with
  | .value s => some s
  | _ => none

theorem valuesUnder_slot (name : String) (source : FieldSource) (kind : ValueKind) (value : Option String) (key : RowKey) :
    valuesUnder (value.toList.map fun rendered => (⟨source, name⟩, rendered, kind)) key =
      if key = ⟨source, name⟩ then value.toList else [] := by
  cases value with
  | none => simp [valuesUnder]
  | some v =>
    unfold valuesUnder
    rw [Option.toList_some, List.map_singleton, under_singleton]
    by_cases hk : key = ⟨source, name⟩
    · rw [if_pos hk, if_pos hk.symm]
      rfl
    · rw [if_neg hk, if_neg (Ne.symm hk)]
      rfl

/-- A name comes once among the fields of a record. -/
theorem filter_name : ∀ {l : List (String × JsonValue)}, (l.map Prod.fst).Nodup → ∀ name,
    l.filter (·.1 = name) = (l.lookup name).toList.map fun v => (name, v)
  | [], _, _ => rfl
  | (k, v) :: l, h, name => by
    obtain ⟨hk, hl⟩ := List.nodup_cons.mp h
    rw [List.filter_cons, List.lookup_cons]
    by_cases hname : k = name
    · subst hname
      have hnone : l.lookup k = none := by
        rw [List.lookup_eq_none_iff]
        intro q hq
        have : q.1 ≠ k := fun he => hk (he ▸ List.mem_map.mpr ⟨q, hq, rfl⟩)
        simpa using this.symm
      have ih := filter_name hl k
      simp [ih, hnone]
    · have ih := filter_name hl name
      have hne : (name == k) = false := by simpa using Ne.symm hname
      simp [hname, ih, hne]

/-- **What a record says under a row** is its value on the row's axis. -/
theorem valuesUnder_readings {key : RowKey} (hkey : key ∈ builtinKeys ∨ key.source = .additional) {e : LogEntry}
    (hnames : (e.additionalFields.map Prod.fst).Nodup)
    (hscalar : key.source = .additional → ∀ v, e.additionalFields.lookup key.name = some v → isDimension v = true) :
    valuesUnder (readings e) key = (valueOn (axisOf key.source key.name) (keysOf key.source key.name) e).toList := by
  have hadditional : valuesUnder (e.additionalFields.map fun q => (⟨.additional, q.1⟩, q.2.text, kindOf q.2)) key =
      if key.source = .additional then ((e.additionalFields.lookup key.name).map JsonValue.text).toList else [] := by
    unfold valuesUnder under
    rw [List.filter_map, List.map_map, List.map_map]
    by_cases hs : key.source = .additional
    · rw [if_pos hs]
      have hfilter : (e.additionalFields.filter ((fun q : RowKey × String × ValueKind => decide (q.1 = key)) ∘
          fun q : String × JsonValue => (⟨.additional, q.1⟩, q.2.text, kindOf q.2))) =
            e.additionalFields.filter (·.1 = key.name) := by
        obtain ⟨source, name⟩ := key
        obtain rfl : source = .additional := hs
        refine List.filter_congr fun q _ => ?_
        simp
      rw [hfilter, filter_name hnames]
      cases e.additionalFields.lookup key.name <;> rfl
    · rw [if_neg hs, List.filter_eq_nil_iff.mpr]
      · rfl
      · rintro q - he
        exact hs (by rw [← of_decide_eq_true he])
  unfold readings
  simp only [valuesUnder_append, valuesUnder_slot, hadditional]
  rcases hkey with hkey | hkey
  · obtain ⟨_, _, _, _, _, host, facility, file, line, _, traceId, spanId, _, _, _⟩ := e
    simp only [builtinKeys, builtins, List.map_cons, List.map_nil, List.mem_cons, List.not_mem_nil, or_false] at hkey
    rcases hkey with rfl | rfl | rfl | rfl | rfl | rfl | rfl | rfl
    · rfl
    · rfl
    · have haxis : axisOf .builtin "host" = .host := by decide
      rw [haxis, valueOn, extract]
      cases host.isEmpty <;> rfl
    · cases facility <;> rfl
    · cases file <;> rfl
    · cases line <;> rfl
    · cases traceId <;> rfl
    · cases spanId <;> rfl
  · obtain ⟨source, name⟩ := key
    obtain rfl : source = .additional := hkey
    have hslot : ∀ other source, source ≠ .additional → ∀ l : List String,
        (if (⟨.additional, name⟩ : RowKey) = ⟨source, other⟩ then l else []) = [] := fun other source hs l =>
      if_neg fun he => hs (congrArg RowKey.source he).symm
    have hvalue : valueOn .field [name] e = (e.additionalFields.lookup name).map JsonValue.text := by
      rw [valueOn, extract]
      cases hv : e.additionalFields.lookup name with
      | none => simp [hv]
      | some v => simp [hv, hscalar rfl v hv]
    simp only [hslot _ _ (show FieldSource.builtin ≠ .additional by decide),
      hslot _ _ (show FieldSource.promoted ≠ .additional by decide), List.nil_append, if_true]
    exact congrArg Option.toList hvalue.symm

/-! ### A list of records -/

theorem valuesUnder_flatMap {key : RowKey} {value : LogEntry → Option String} : ∀ {es : List LogEntry},
    (∀ e ∈ es, valuesUnder (readings e) key = (value e).toList) →
      valuesUnder (es.flatMap readings) key = es.filterMap value
  | [], _ => rfl
  | e :: es, h => by
    rw [List.flatMap_cons, valuesUnder_append, h e List.mem_cons_self,
      valuesUnder_flatMap fun x hx => h x (List.mem_cons_of_mem _ hx), List.filterMap_cons]
    cases value e <;> rfl

section Profile

variable {axis : Axis} {keys : List String}

/-- The key of a record on an axis of one member. -/
def memberOn (axis : Axis) (keys : List String) (e : LogEntry) : MemberKey :=
  match valueOn axis keys e with
  | some s => .value s
  | none => .absent

theorem keyOf_one (e : LogEntry) : keyOf axis keys 1 e = [memberOn axis keys e] := by
  unfold keyOf memberOn valueOn
  rw [List.range_one, List.map_singleton]
  cases extract axis keys e 0 <;> rfl

/-- Where nothing folds, every record comes under its own key. -/
theorem filed_of_uncapped {g : GroupMap} {filed : List (List MemberKey × LogEntry)} (hone : memberCount axis keys = 1)
    (h : ProfileWalk axis keys g filed) (hcapped : g.capped = false) :
    filed = (filed.map Prod.snd).map fun e => ([memberOn axis keys e], e) := by
  have hown : ∀ q ∈ filed, q = ([memberOn axis keys q.2], q.2) := by
    intro q hq
    have hnot : q.1 ≠ overflowKey (memberCount axis keys) := fun he => by
      have := h.capped.mpr ⟨q, hq, he⟩
      rw [hcapped] at this
      cases this
    rw [← keyOf_one, ← hone, ← (h.own q hq).resolve_right fun hr => hnot hr.2]
  rw [List.map_map]
  exact (List.map_id filed).symm.trans (List.map_congr_left hown)

theorem under_filed (es : List LogEntry) (m : MemberKey) :
    under (es.map fun e => ([memberOn axis keys e], e)) [m] = es.filter fun e => memberOn axis keys e = m := by
  unfold under
  rw [List.filter_map, List.map_map]
  refine (List.map_id _).trans (List.filter_congr fun e _ => ?_)
  simp

theorem memberOn_value {e : LogEntry} {s : String} : memberOn axis keys e = .value s ↔ valueOn axis keys e = some s := by
  unfold memberOn
  cases valueOn axis keys e <;> simp

theorem memberOn_absent {e : LogEntry} : memberOn axis keys e = .absent ↔ valueOn axis keys e = none := by
  unfold memberOn
  cases valueOn axis keys e <;> simp

theorem length_value (es : List LogEntry) (s : String) :
    (es.filter fun e => memberOn axis keys e = .value s).length = (es.filterMap (valueOn axis keys)).count s := by
  simp only [memberOn_value]
  induction es with
  | nil => rfl
  | cons e es ih =>
    rw [List.filter_cons, List.filterMap_cons]
    cases hv : valueOn axis keys e with
    | none => simpa [hv] using ih
    | some t =>
      by_cases ht : t = s
      · simpa [hv, ht] using ih
      · simpa [hv, ht] using ih

theorem length_absent (es : List LogEntry) :
    (es.filter fun e => memberOn axis keys e = .absent).length + (es.filterMap (valueOn axis keys)).length = es.length := by
  simp only [memberOn_absent]
  induction es with
  | nil => rfl
  | cons e es ih =>
    rw [List.filter_cons, List.filterMap_cons]
    cases hv : valueOn axis keys e <;> simp <;> omega

theorem foldGroup_count (l : List LogEntry) :
    (foldGroup GroupAcc.new GroupAcc.observe l).map (·.count) = if 0 < l.length then some l.length else none := by
  cases hf : foldGroup GroupAcc.new GroupAcc.observe l with
  | none =>
    rw [(foldGroup_eq_none_iff _ _).mp hf]
    rfl
  | some a =>
    have hne : l ≠ [] := fun hnil => by
      rw [hnil] at hf
      cases hf
    rw [if_pos (List.length_pos_of_ne_nil hne), Option.map_some, (foldGroup_acc hf).count]

/-- What an uncapped profile along one member holds of `n` records with these
values. -/
structure OneMember (g : GroupMap) (values : List String) (n : ℕ) : Prop where
  value : ∀ s, (g.accs.get? [.value s]).map (·.count) = if s ∈ values then some (values.count s) else none
  absent : (g.accs.get? [.absent]).map (·.count) = if values.length < n then some (n - values.length) else none
  keys : ∀ k, (g.accs.get? k).isSome → (∃ s, k = [.value s]) ∨ k = [.absent]

theorem OneMember.of_walk {g : GroupMap} {filed : List (List MemberKey × LogEntry)} {es : List LogEntry}
    (hone : memberCount axis keys = 1) (h : ProfileWalk axis keys g filed) (hall : filed.map Prod.snd = es)
    (hcapped : g.capped = false) : OneMember g (es.filterMap (valueOn axis keys)) es.length := by
  have hfiled := filed_of_uncapped hone h hcapped
  rw [hall] at hfiled
  have hget : ∀ m, (g.accs.get? [m]).map (·.count) =
      if 0 < (es.filter fun e => memberOn axis keys e = m).length then
        some (es.filter fun e => memberOn axis keys e = m).length else none := by
    intro m
    rw [h.rows, foldGroup_count, hfiled, under_filed]
  refine ⟨fun s => ?_, ?_, fun k hk => ?_⟩
  · rw [hget, length_value]
    simp only [List.count_pos_iff]
  · have hlength := @length_absent axis keys es
    rw [hget]
    split_ifs with h1 h2 h2
    · exact congrArg some (by omega)
    · omega
    · omega
    · rfl
  · obtain ⟨e, he⟩ := h.rows.isSome_iff.mp hk
    rw [hfiled] at he
    obtain ⟨e', -, heq⟩ := List.mem_map.mp he
    obtain ⟨rfl, -⟩ := Prod.mk.inj heq
    cases hv : valueOn axis keys e' with
    | none => exact .inr (by rw [memberOn_absent.mpr hv])
    | some s => exact .inl ⟨s, by rw [memberOn_value.mpr hv]⟩

end Profile

/-! ### The order of the rows -/

instance : Std.Total topLe := ⟨fun a b => by
  unfold topLe
  rcases lt_trichotomy a.count b.count with hc | hc | hc
  · exact .inr (.inl hc)
  · exact (le_total a.value b.value).imp (fun h => .inr ⟨hc.symm, h⟩) fun h => .inr ⟨hc, h⟩
  · exact .inl (.inl hc)⟩

instance : IsTrans TopValue topLe := ⟨fun a b c hab hbc => by
  unfold topLe at *
  rcases hab with hab | ⟨hab, hab'⟩
  · rcases hbc with hbc | ⟨hbc, -⟩ <;> exact .inl (by omega)
  · rcases hbc with hbc | ⟨hbc, hbc'⟩
    · exact .inl (by omega)
    · exact .inr ⟨by omega, hab'.trans hbc'⟩⟩

/-- Only equal values tie. -/
theorem topLe_antisymm {a b : TopValue} (hab : topLe a b) (hba : topLe b a) : a = b := by
  obtain ⟨hcount, hvalue⟩ : a.count = b.count ∧ a.value = b.value := by
    rcases hab with hab | ⟨hab, hab'⟩
    · rcases hba with hba | ⟨hba, -⟩ <;> omega
    · rcases hba with hba | ⟨-, hba'⟩
      · omega
      · exact ⟨hab.symm, le_antisymm hab' hba'⟩
  exact TopValue.ext hvalue hcount

/-- A row of the profile as the field map shows a value. -/
def LogGroup.asTop (r : LogGroup) : TopValue := ⟨r.key, r.count⟩

theorem topLe_of_groupLe {a b : LogGroup} (h : groupLe a b) : topLe a.asTop b.asTop := by
  rcases h with h | ⟨hc, hk | ⟨hk, -⟩⟩
  · exact .inl h
  · exact .inr ⟨hc, hk.le⟩
  · exact .inr ⟨hc, hk.le⟩

/-- **Both sorts agree** on the same values. -/
theorem top_eq_of_perm {rows : List LogGroup} {values : List TopValue} (h : (rows.map LogGroup.asTop).Perm values) :
    (rows.insertionSort groupLe).map LogGroup.asTop = values.insertionSort topLe := by
  refine List.Perm.eq_of_pairwise (fun _ _ _ _ => topLe_antisymm) ?_ (List.pairwise_insertionSort _ _) ?_
  · exact List.Pairwise.map _ (fun _ _ => topLe_of_groupLe) (List.pairwise_insertionSort _ _)
  · exact ((List.perm_insertionSort _ _).map _).trans (h.trans (List.perm_insertionSort _ _).symm)

/-! ### The rows -/

section Rows

variable (order : MapOrder) {g : GroupMap} {values : List String} {n : ℕ}

theorem finish_real (h : g.axis ≠ .none) (topN : ℕ) : (g.finish order topN).1.filter (·.reserved.isNone) =
    ((((order.rows g.accs).map groupRow).filter (·.reserved.isNone)).insertionSort groupLe).take topN := by
  have hreal : ∀ r ∈ ((((order.rows g.accs).map groupRow).filter (·.reserved.isNone)).insertionSort groupLe).take topN,
      r.reserved.isNone = true := fun r hr =>
    (List.mem_filter.mp ((List.perm_insertionSort _ _).mem_iff.mp (List.mem_of_mem_take hr))).2
  have hreserved : ∀ r ∈ (((order.rows g.accs).map groupRow).filter (·.reserved.isSome)).insertionSort
      fun a b => reservedRank a.reserved ≤ reservedRank b.reserved, ¬ r.reserved.isNone = true := fun r hr => by
    have := (List.mem_filter.mp ((List.perm_insertionSort _ _).mem_iff.mp hr)).2
    simpa [Option.isSome_iff_ne_none] using this
  rw [finish_fst order h, List.filter_append, List.filter_eq_self.mpr hreal, List.filter_eq_nil_iff.mpr hreserved,
    List.append_nil]

theorem finish_reserved (h : g.axis ≠ .none) (topN : ℕ) : ((g.finish order topN).1.filter (·.reserved.isSome)).Perm
    ((g.accs.entries.map groupRow).filter (·.reserved.isSome)) := by
  have hreal : ∀ r ∈ ((((order.rows g.accs).map groupRow).filter (·.reserved.isNone)).insertionSort groupLe).take topN,
      ¬ r.reserved.isSome = true := fun r hr => by
    have := (List.mem_filter.mp ((List.perm_insertionSort _ _).mem_iff.mp (List.mem_of_mem_take hr))).2
    simpa [Option.isSome_iff_ne_none] using this
  have hreserved : ∀ r ∈ (((order.rows g.accs).map groupRow).filter (·.reserved.isSome)).insertionSort
      fun a b => reservedRank a.reserved ≤ reservedRank b.reserved, r.reserved.isSome = true := fun r hr =>
    (List.mem_filter.mp ((List.perm_insertionSort _ _).mem_iff.mp hr)).2
  rw [finish_fst order h, List.filter_append, List.filter_eq_nil_iff.mpr hreal, List.nil_append,
    List.filter_eq_self.mpr hreserved]
  exact (List.perm_insertionSort _ _).trans (((order.perm g.accs).map groupRow).filter _)

/-- The real rows are the values. -/
theorem OneMember.real (h : OneMember g values n) {counts : FMap String ℕ}
    (hcounts : ∀ s, counts.get? s = if s ∈ values then some (values.count s) else none) :
    ((((order.rows g.accs).map groupRow).filter (·.reserved.isNone)).map LogGroup.asTop).Perm
      ((order.rows counts).map fun q => ⟨q.1, q.2⟩) := by
  have hrows := (((order.perm g.accs).map groupRow).filter (·.reserved.isNone)).map LogGroup.asTop
  refine hrows.trans (List.Perm.trans ?_ ((order.perm counts).map _).symm)
  have hvalue : ∀ q ∈ g.accs.entries, (groupRow q).reserved.isNone = true →
      q.1 = [.value (groupRow q).key] ∧ counts.get? (groupRow q).key = some q.2.count := by
    rintro ⟨k, a⟩ hq hnone
    have hget := FMap.mem_iff.mp hq
    rcases h.keys k (by rw [hget]; rfl) with ⟨s, rfl⟩ | rfl
    · refine ⟨rfl, ?_⟩
      have := h.value s
      rw [hget] at this
      exact (hcounts s).trans this.symm
    · cases hnone
  rw [List.filter_map, List.map_map]
  refine (List.perm_ext_iff_of_nodup ?_ ?_).mpr fun t => ?_
  · refine List.Nodup.map_on ?_ ((List.Nodup.of_map _ g.accs.nodup).filter _)
    intro q hq q' hq' he
    obtain ⟨hmem, hnone⟩ := List.mem_filter.mp hq
    obtain ⟨hmem', hnone'⟩ := List.mem_filter.mp hq'
    have hkey : (groupRow q).key = (groupRow q').key := congrArg TopValue.value he
    refine List.inj_on_of_nodup_map g.accs.nodup hmem hmem' ?_
    rw [(hvalue q hmem hnone).1, (hvalue q' hmem' hnone').1, hkey]
  · refine (List.Nodup.of_map _ counts.nodup).map fun q q' he => ?_
    exact Prod.ext (congrArg TopValue.value he) (congrArg TopValue.count he)
  · rw [List.mem_map, List.mem_map]
    constructor
    · rintro ⟨q, hq, rfl⟩
      obtain ⟨hmem, hnone⟩ := List.mem_filter.mp hq
      exact ⟨((groupRow q).key, q.2.count), FMap.mem_iff.mpr (hvalue q hmem hnone).2, rfl⟩
    · rintro ⟨⟨s, c⟩, hq, rfl⟩
      have hget := h.value s
      rw [← hcounts s, FMap.mem_iff.mp hq] at hget
      obtain ⟨a, ha, rfl⟩ := Option.map_eq_some_iff.mp hget
      exact ⟨([.value s], a), List.mem_filter.mpr ⟨FMap.mem_iff.mpr ha, rfl⟩, rfl⟩

/-- The reserved rows are the absent row, if a record has no value. -/
theorem OneMember.reserved (h : OneMember g values n) (haxis : g.axis ≠ .none) (topN : ℕ) :
    ((g.finish order topN).1.filter (·.reserved.isSome)).map (fun r => (r.reserved, r.count)) =
      if values.length < n then [(some .absent, n - values.length)] else [] := by
  have hperm := finish_reserved order haxis topN
  rw [List.filter_map] at hperm
  have hkey : ∀ q ∈ g.accs.entries, (groupRow q).reserved.isSome = true → q.1 = [.absent] := by
    rintro ⟨k, a⟩ hq hsome
    rcases h.keys k (by rw [FMap.mem_iff.mp hq]; rfl) with ⟨s, rfl⟩ | rfl
    · cases hsome
    · rfl
  have habsent := h.absent
  cases hget : g.accs.get? [.absent] with
  | none =>
    have hnil : g.accs.entries.filter ((fun r : LogGroup => r.reserved.isSome) ∘ groupRow) = [] :=
      List.filter_eq_nil_iff.mpr fun q hq hs => by
        have := FMap.mem_iff.mp (show (q.1, q.2) ∈ g.accs.entries from hq)
        rw [hkey q hq hs, hget] at this
        cases this
    rw [hnil, List.map_nil, List.perm_nil] at hperm
    have hlt : ¬ values.length < n := fun hlt => by
      rw [hget, if_pos hlt] at habsent
      cases habsent
    rw [hperm, if_neg hlt]
    rfl
  | some a =>
    have hone : (g.accs.entries.filter ((fun r : LogGroup => r.reserved.isSome) ∘ groupRow)).Perm [([.absent], a)] := by
      refine ((FMap.perm_erase hget).filter _).trans ?_
      have hrest : (g.accs.erase [.absent]).entries.filter ((fun r : LogGroup => r.reserved.isSome) ∘ groupRow) = [] :=
        List.filter_eq_nil_iff.mpr fun q hq hs => by
          obtain ⟨hmem, hne⟩ := List.mem_filter.mp hq
          rw [hkey q hmem hs] at hne
          simp at hne
      rw [List.filter_cons, hrest]
      exact List.Perm.refl _
    rw [List.perm_singleton.mp (hperm.trans (hone.map groupRow))]
    have hlt : values.length < n := by
      by_contra hlt
      rw [hget, if_neg hlt] at habsent
      cases habsent
    rw [hget, if_pos hlt] at habsent
    rw [if_pos hlt, List.map_singleton, ← Option.some.inj habsent]
    rfl

end Rows

/-! ### The two tools -/

theorem mem_readings {e : LogEntry} {r : RowKey × String × ValueKind} (h : r ∈ readings e) :
    r.1 ∈ builtinKeys ∨ r.1.source = .additional := by
  unfold readings at h
  simp only [List.mem_append, List.mem_map] at h
  rcases h with ⟨_, -, rfl⟩ | ⟨_, -, rfl⟩ | ⟨_, -, rfl⟩ | ⟨_, -, rfl⟩ | ⟨_, -, rfl⟩ | ⟨_, -, rfl⟩ | ⟨_, -, rfl⟩ |
    ⟨_, -, rfl⟩ | ⟨_, -, rfl⟩
  all_goals dsimp only
  all_goals first | exact .inr rfl | exact .inl (by decide)

/-- The axis of a row is one there is, of one member. -/
theorem axisOf_one {key : RowKey} (h : key ∈ builtinKeys ∨ key.source = .additional) :
    axisOf key.source key.name ≠ .none ∧ memberCount (axisOf key.source key.name) (keysOf key.source key.name) = 1 := by
  rcases h with h | h
  · have hall : ∀ key ∈ builtinKeys, axisOf key.source key.name ≠ .none ∧
        memberCount (axisOf key.source key.name) (keysOf key.source key.name) = 1 := by
      decide
    exact hall key h
  · obtain ⟨source, name⟩ := key
    obtain rfl : source = .additional := h
    exact ⟨by simp [axisOf], rfl⟩

/-- The profile along a row's axis. -/
def profileOf (es : List LogEntry) (row : FieldStats) : GroupMap :=
  (GroupMap.new (axisOf row.source row.field) (keysOf row.source row.field)).observeAll es

/-- A row of the field map and the profile along its axis say the same, of
each `n` values at most. -/
structure SameCounts (order : MapOrder) (es : List LogEntry) (n : ℕ) (row : FieldStats) : Prop where
  /-- The real rows are the values, with their counts and in their order. -/
  real : (((profileOf es row).finish order n).1.filter (·.reserved.isNone)).map LogGroup.asTop = row.topValues
  /-- Each value comes once. -/
  once : (row.topValues.map (·.value)).Nodup
  shown : ∀ d, row.distinct = some d → row.topValues.length = min n d
  /-- Uncut, they are all the rendered values. -/
  values : ∀ d, row.distinct = some d → d ≤ n → ∀ t, t ∈ row.topValues ↔
    t.value ∈ valuesUnder (es.flatMap readings) ⟨row.source, row.field⟩ ∧
      t.count = (valuesUnder (es.flatMap readings) ⟨row.source, row.field⟩).count t.value
  /-- The records without a value are the only other row. -/
  absent : (((profileOf es row).finish order n).1.filter (·.reserved.isSome)).map (fun r => (r.reserved, r.count)) =
    if row.present < es.length then [(some .absent, es.length - row.present)] else []

/-- **The field map and the profiles agree** wherever no cap was reached, of
every field whose values are scalars. -/
theorem fields_profile_agree (env : ParseEnv) (order : MapOrder) {es : List LogEntry}
    (hmaps : ∀ e ∈ es, (e.additionalFields.map Prod.fst).Nodup) (n : ℕ)
    (hnames : (FieldMap.new.observeAll es).namesCapped = false) {row : FieldStats}
    (hrow : row ∈ (FieldMap.new.observeAll es).finish env order n) (hvalues : row.distinct.isSome)
    (hkeys : (profileOf es row).capped = false)
    (hscalar : row.source = .additional → ∀ e ∈ es, ∀ v, e.additionalFields.lookup row.field = some v →
      isDimension v = true) : SameCounts order es n row := by
  obtain ⟨key, a, hget, rfl⟩ := mem_fieldRows env order hrow
  have hwalk := FieldWalk.observeAll es
  have htallied := hwalk.row hnames key a hget
  have hcapped : a.capped = false := by
    cases hc : a.capped with
    | false => rfl
    | true =>
      simp only [fieldRow, hc] at hvalues
      cases hvalues
  have hknown : key ∈ builtinKeys ∨ key.source = .additional := by
    rcases hwalk.known key (by rw [hget]; rfl) with h | h
    · exact .inl h
    · obtain ⟨r, hr, rfl⟩ := List.mem_map.mp h
      obtain ⟨e, -, hr⟩ := List.mem_flatMap.mp hr
      exact mem_readings hr
  have hunder : valuesUnder (es.flatMap readings) key =
      es.filterMap (valueOn (axisOf key.source key.name) (keysOf key.source key.name)) :=
    valuesUnder_flatMap fun e he => valuesUnder_readings hknown (hmaps e he) fun hs => hscalar hs e he
  obtain ⟨haxis, hone⟩ := axisOf_one hknown
  have hprofile := ProfileWalk.observeAll haxis es (.new (axisOf key.source key.name) (keysOf key.source key.name))
  have hmember : OneMember (profileOf es (fieldRow env order n key a)) (valuesUnder (es.flatMap readings) key) es.length :=
    hunder ▸ OneMember.of_walk hone hprofile (map_filings es _) hkeys
  have hg : (profileOf es (fieldRow env order n key a)).axis ≠ .none := by
    rw [show (profileOf es (fieldRow env order n key a)).axis = _ from hprofile.axis_eq]
    exact haxis
  have hcounts := htallied.counts hcapped
  have hpairs : ∀ t : TopValue, t ∈ (order.rows a.counts).map (fun q => (⟨q.1, q.2⟩ : TopValue)) ↔
      t.value ∈ valuesUnder (es.flatMap readings) key ∧ t.count = (valuesUnder (es.flatMap readings) key).count t.value := by
    intro t
    have hiff : t ∈ (order.rows a.counts).map (fun q => (⟨q.1, q.2⟩ : TopValue)) ↔ a.counts.get? t.value = some t.count := by
      rw [← FMap.mem_iff, ← (order.perm a.counts).mem_iff, List.mem_map]
      constructor
      · rintro ⟨q, hq, rfl⟩
        exact hq
      · exact fun h => ⟨_, h, rfl⟩
    rw [hiff, hcounts]
    split_ifs with h
    · exact ⟨fun he => ⟨h, (Option.some.inj he).symm⟩, fun he => congrArg some he.2.symm⟩
    · exact ⟨fun he => (nomatch he), fun he => absurd he.1 h⟩
  have hlength : ((order.rows a.counts).map fun q => (⟨q.1, q.2⟩ : TopValue)).length = a.counts.entries.length := by
    rw [List.length_map, (order.perm a.counts).length_eq]
  have hdistinct : ∀ d, (fieldRow env order n key a).distinct = some d → d = a.counts.entries.length := by
    intro d hd
    simp only [fieldRow, hcapped] at hd
    exact (Option.some.inj hd).symm
  refine ⟨?_, ?_, fun d hd => ?_, fun d hd hn t => ?_, ?_⟩
  · rw [finish_real order hg, List.map_take, top_eq_of_perm (hmember.real order hcounts)]
    rfl
  · have hnodup : (((order.rows a.counts).map fun q => (⟨q.1, q.2⟩ : TopValue)).map (·.value)).Nodup := by
      rw [List.map_map]
      exact ((order.perm a.counts).map Prod.fst).nodup_iff.mpr a.counts.nodup
    exact (((List.perm_insertionSort topLe _).map _).nodup_iff.mpr hnodup).sublist ((List.take_sublist _ _).map _)
  · show ((((order.rows a.counts).map fun q => (⟨q.1, q.2⟩ : TopValue)).insertionSort topLe).take n).length = _
    rw [List.length_take, List.length_insertionSort, hlength, hdistinct d hd]
  · show t ∈ ((((order.rows a.counts).map fun q => (⟨q.1, q.2⟩ : TopValue)).insertionSort topLe).take n) ↔ _
    rw [List.take_of_length_le, (List.perm_insertionSort _ _).mem_iff, hpairs]
    · exact Iff.rfl
    · rw [List.length_insertionSort, hlength, ← hdistinct d hd]
      exact hn
  · rw [hmember.reserved order hg, ← htallied.present]
    rfl

/-- One record with a field and one without. -/
def twoRecords : List LogEntry := [{ LogEntry.blank 1 with additionalFields := [("unit", .string "m")] }, .blank 2]

def unitRow : FieldStats := ⟨"unit", .additional, some "unit", 1, some 1, [⟨"m", 1⟩], .string⟩

theorem fields_profile_agree_unit :
    SameCounts .asListed twoRecords 20 unitRow :=
  fields_profile_agree ParseEnv.ascii .asListed (by decide) 20 (by decide) (by decide) rfl (by decide)
    fun _ e he v hv => by
      have hall : ∀ e ∈ twoRecords, ∀ v ∈ e.additionalFields.lookup "unit", isDimension v = true := by decide
      exact hall e he v hv

end Logmon
