/-
# One outcome for each entry

`apply_data_entries` and `apply_case_data_entries` of `daemon/rpc_handler.rs`
report one outcome for each entry sent, in the order sent. They get there in
three passes, over the entries rejected while parsing, those kept with the
document and those put to the registry as one batch, and merge what the passes
report by the entry's index. Here the three passes are one walk over the list
that decides each entry where it stands (`split_inOrder`), so the merge puts
nothing onto another entry (`outcomes_line_up`).

Key definitions: `applyDataEntries`, `wireOutcome`, `Held.decide`, `inOrder`,
`LinesUp`.
Key theorems: `split_inOrder`, `outcomes_line_up`.
-/
import Logmon.Cases.CaseData

namespace Logmon
namespace DomainData

/-! ### The replies -/

def RejectReason.asStr : RejectReason → String
  | .malformedPath => "malformed_path"
  | .pathTooLong => "path_too_long"
  | .malformedValue => "malformed_value"
  | .valueTooLong => "value_too_long"
  | .reservedPrefix => "reserved_prefix"
  | .sigilNotAllowedHere => "sigil_not_allowed_here"
  | .malformedTtl => "malformed_ttl"
  | .registryFull => "registry_full"

def UnknownCause.asStr : UnknownCause → String
  | .neverSet => "never_set"
  | .noRegistry => "no_registry"
  | .undetermined => "undetermined"

def Outcome.asStr : Outcome → String
  | .created => "created"
  | .updated => "updated"
  | .validated => "validated"
  | .scoped => "scoped"
  | .unknown _ => "unknown"
  | .rejected _ => "rejected"

/-- `DomainDataOutcome`: an outcome on the wire. -/
structure WireOutcome where
  path : String
  outcome : String
  cause : Option String
  reason : Option String
  deriving DecidableEq

def wireOutcome (o : DataOutcome) : WireOutcome where
  path := o.path
  outcome := o.outcome.asStr
  cause := match o.outcome with
    | .unknown cause => some cause.asStr
    | _ => none
  reason := match o.outcome with
    | .rejected reason => some reason.asStr
    | _ => none

end DomainData

namespace Cases

open Lib DomainData

/-- The entries of a parsed list, and what was rejected before the registry saw
it. -/
def ParsedEntry.entry? : ℕ × ParsedEntry → Option (ℕ × DataEntry)
  | (i, .entry d) => some (i, d)
  | (_, .rejected _) => none

def ParsedEntry.rejected? : ℕ × ParsedEntry → Option (ℕ × DataOutcome)
  | (_, .entry _) => none
  | (i, .rejected o) => some (i, o)

/-- `apply_data_entries`, behind `domain_data.update` and `collectors.add`: the
registry after the entries, the outcomes, and what went wrong saving it. `none`
is a panic. -/
def applyDataEntries (registry : Option Registry) (raw : Option Rpc.Value) (now : ℤ) (saved : Except String Unit) :
    Option (Option Registry × Except String (List WireOutcome × Option String)) :=
  match registry with
  | none => some (none, .error "domain_data is not available on this broker")
  | some r =>
    match parseDataEntries raw with
    | none => none
    | some (.error e) => some (some r, .error e)
    | some (.ok parsed) =>
      let indexed := parsed.filterMap ParsedEntry.entry?
      let (r, applied) := r.update (indexed.map Prod.snd) now
      let outcomes := mergeOutcomes applied (indexed.map Prod.fst) (parsed.filterMap ParsedEntry.rejected?)
      some (some r, .ok (outcomes.map wireOutcome, match saved with
        | .ok () => none
        | .error e => some e))

/-- The outcomes of a capture's entries, on the wire. -/
def AppliedData.wire (a : AppliedData) : List WireOutcome := a.outcomes.map wireOutcome

/-! ### One walk -/

/-- What the entries are put to: the registry, and the document's facts. -/
structure Held where
  registry : Registry
  facts : List ScopedFact

/-- One entry on its own; `own` says which entries the document keeps. -/
def Held.decide (own : DataEntry → Bool) (now : ℤ) (held : Held) : ParsedEntry → Held × DataOutcome
  | .rejected o => (held, o)
  | .entry d =>
    if own d then
      match scopeEntry d held.facts with
      | .ok facts => ({ held with facts }, ⟨d.path, .scoped⟩)
      | .error reason => (held, ⟨d.path, .rejected reason⟩)
    else
      let (registry, outcome) := held.registry.applyOne d now
      ({ held with registry }, ⟨d.path, outcome⟩)

/-- The entries decided one after another. -/
def inOrder (own : DataEntry → Bool) (now : ℤ) : Held → List ParsedEntry → Held × List DataOutcome
  | held, [] => (held, [])
  | held, p :: ps =>
    let (held, outcome) := held.decide own now p
    let (held, outcomes) := inOrder own now held ps
    (held, outcome :: outcomes)

variable {own : DataEntry → Bool} {now : ℤ}

theorem inOrder_append (ps qs : List ParsedEntry) : ∀ held : Held, inOrder own now held (ps ++ qs) =
    ((inOrder own now (inOrder own now held ps).1 qs).1,
      (inOrder own now held ps).2 ++ (inOrder own now (inOrder own now held ps).1 qs).2) := by
  induction ps with
  | nil => exact fun _ => rfl
  | cons p ps ih =>
    intro held
    simp only [List.cons_append, inOrder, ih]

theorem length_inOrder (ps : List ParsedEntry) : ∀ held : Held, (inOrder own now held ps).2.length = ps.length := by
  induction ps with
  | nil => exact fun _ => rfl
  | cons p ps ih => exact fun held => congrArg (· + 1) (ih (held.decide own now p).1)

/-! ### The passes -/

/-- One entry set aside for the pass that decides it. -/
def setApart (own : DataEntry → Bool) (s : SplitData) : ℕ × ParsedEntry → SplitData
  | (i, .rejected o) => { s with decided := s.decided ++ [(i, o)] }
  | (i, .entry d) =>
    if own d then
      match scopeEntry d s.facts with
      | .ok facts => { s with decided := s.decided ++ [(i, ⟨d.path, .scoped⟩)], facts }
      | .error reason => { s with decided := s.decided ++ [(i, ⟨d.path, .rejected reason⟩)] }
    else { s with forRegistry := s.forRegistry ++ [(i, d)] }

def setAllApart (own : DataEntry → Bool) (parsed : List (ℕ × ParsedEntry)) : SplitData :=
  parsed.foldl (setApart own) ⟨[], [], []⟩

theorem splitEntries_eq (parsed : List (ℕ × ParsedEntry)) : splitEntries parsed = setAllApart isScoped parsed := by
  have hstep : splitEntry = setApart isScoped := by
    funext s p
    obtain ⟨i, o | d⟩ := p <;> rfl
  rw [splitEntries, hstep, setAllApart]

/-- Where the document keeps nothing, what is set apart is what parsing left. -/
theorem setAllApart_none (parsed : List (ℕ × ParsedEntry)) : setAllApart (fun _ => false) parsed =
    ⟨parsed.filterMap ParsedEntry.entry?, parsed.filterMap ParsedEntry.rejected?, []⟩ := by
  induction parsed using List.reverseRecOn with
  | nil => rfl
  | append_singleton parsed p ih =>
    have hstep : setAllApart (fun _ => false) (parsed ++ [p]) =
        setApart (fun _ => false) (setAllApart (fun _ => false) parsed) p := by simp [setAllApart]
    rw [hstep, ih]
    obtain ⟨i, d | o⟩ := p <;> simp [setApart, ParsedEntry.entry?, ParsedEntry.rejected?]

/-- An entry set apart is decided at once, or put to the registry. -/
theorem setApart_cases (s : SplitData) (r : Registry) (p : ℕ × ParsedEntry) :
    let apart := setApart own s p
    let step := Held.decide own now ⟨r, s.facts⟩ p.2
    (apart.forRegistry = s.forRegistry ∧ apart.decided = s.decided ++ [(p.1, step.2)] ∧ step.1 = ⟨r, apart.facts⟩) ∨
      ∃ d, apart.forRegistry = s.forRegistry ++ [(p.1, d)] ∧ apart.decided = s.decided ∧
        step = (⟨(r.applyOne d now).1, apart.facts⟩, ⟨d.path, (r.applyOne d now).2⟩) := by
  obtain ⟨i, d | o⟩ := p
  · dsimp only [setApart, Held.decide]
    by_cases hown : own d = true
    · rw [if_pos hown, if_pos hown]
      cases scopeEntry d s.facts with
      | ok facts => exact .inl ⟨rfl, rfl, rfl⟩
      | error reason => exact .inl ⟨rfl, rfl, rfl⟩
    · rw [if_neg hown, if_neg hown]
      exact .inr ⟨d, rfl, rfl, rfl⟩
  · exact .inl ⟨rfl, rfl, rfl⟩

/-- **The passes are the walk**: the registry and the facts come out the same,
and each outcome carries its entry's index. -/
theorem split_inOrder (r : Registry) (parsed : List (ℕ × ParsedEntry)) :
    let apart := setAllApart own parsed
    let batch := r.update (apart.forRegistry.map Prod.snd) now
    let walk := inOrder own now ⟨r, []⟩ (parsed.map Prod.snd)
    walk.1 = ⟨batch.1, apart.facts⟩ ∧
      ((apart.forRegistry.map Prod.fst).zip batch.2 ++ apart.decided).Perm ((parsed.map Prod.fst).zip walk.2) := by
  induction parsed using List.reverseRecOn with
  | nil => exact ⟨rfl, List.Perm.refl _⟩
  | append_singleton parsed p ih =>
    obtain ⟨hheld, hperm⟩ := ih
    have hstep : setAllApart own (parsed ++ [p]) = setApart own (setAllApart own parsed) p := by simp [setAllApart]
    have hwalk : ∀ held : Held, inOrder own now held [p.2] =
        ((held.decide own now p.2).1, [(held.decide own now p.2).2]) := fun _ => rfl
    have hlen : (parsed.map Prod.fst).length = (inOrder own now ⟨r, []⟩ (parsed.map Prod.snd)).2.length := by
      rw [length_inOrder, List.length_map, List.length_map]
    dsimp only at hheld hperm ⊢
    rw [hstep, List.map_append, List.map_append, List.map_singleton, List.map_singleton, inOrder_append, hwalk, hheld,
      List.zip_append hlen]
    generalize setAllApart own parsed = apart at hperm ⊢
    rcases @setApart_cases own now apart (r.update (apart.forRegistry.map Prod.snd) now).1 p with
      ⟨hregistry, hdecided, hfacts⟩ | ⟨d, hregistry, hdecided, hd⟩
    · rw [hregistry, hdecided, ← List.append_assoc]
      exact ⟨hfacts, hperm.append_right _⟩
    · have hpaths : (apart.forRegistry.map Prod.fst).length = (r.update (apart.forRegistry.map Prod.snd) now).2.length := by
        have hlens := congrArg List.length (Registry.update_paths (apart.forRegistry.map Prod.snd) now r)
        rw [List.length_map, List.length_map, List.length_map] at hlens
        rw [List.length_map, hlens]
      rw [hregistry, hdecided, hd, List.map_append, List.map_append, Registry.update_append, List.zip_append hpaths,
        List.append_assoc]
      refine ⟨rfl, ?_⟩
      exact (List.perm_append_comm.append_left _).trans (by rw [← List.append_assoc]; exact hperm.append_right _)

/-! ### The merge -/

/-- The outcomes of a parsed list in the caller's order. -/
theorem mergeOutcomes_inOrder (r : Registry) {parsed : List (ℕ × ParsedEntry)} (h : Asc Prod.fst parsed) :
    mergeOutcomes (r.update ((setAllApart own parsed).forRegistry.map Prod.snd) now).2
        ((setAllApart own parsed).forRegistry.map Prod.fst) (setAllApart own parsed).decided =
      (inOrder own now ⟨r, []⟩ (parsed.map Prod.snd)).2 := by
  have hlen : (inOrder own now ⟨r, []⟩ (parsed.map Prod.snd)).2.length = (parsed.map Prod.fst).length := by
    rw [length_inOrder, List.length_map, List.length_map]
  have hasc : Asc Prod.fst ((parsed.map Prod.fst).zip (inOrder own now ⟨r, []⟩ (parsed.map Prod.snd)).2) := by
    rw [Asc, ← List.pairwise_map (f := Prod.fst), List.map_fst_zip (Nat.le_of_eq hlen.symm)]
    exact h.map_keys
  rw [mergeOutcomes, sortByKey_of_perm hasc (split_inOrder r parsed).2, List.map_snd_zip (Nat.le_of_eq hlen)]

/-- The parsed entries carry their places in the list, and each is what its
element reads as. -/
theorem parseItems_ok : ∀ {items : List Rpc.Value} {i : ℕ} {parsed : List (ℕ × ParsedEntry)},
    parseItems i items = some (.ok parsed) → parsed.map Prod.fst = List.range' i items.length ∧
      List.Forall₂ (fun item p => parseDataEntry p.1 item = some (.ok p.2)) items parsed
  | [], _, parsed, h => by
    obtain rfl : [] = parsed := by simpa [parseItems] using h
    exact ⟨rfl, .nil⟩
  | item :: items, i, parsed, h => by
    unfold parseItems at h
    split at h
    · simp at h
    · simp at h
    rename_i p hp
    obtain ⟨rest, hrest, hparsed⟩ := Option.map_eq_some_iff.mp h
    cases rest with
    | error e => simp [Except.map] at hparsed
    | ok rest =>
      obtain rfl : (i, p) :: rest = parsed := Except.ok.inj hparsed
      obtain ⟨hindices, hread⟩ := parseItems_ok hrest
      exact ⟨by rw [List.map_cons, hindices, List.length_cons, List.range'_succ], .cons hp hread⟩

/-- What is read of an element carries the element's path. -/
theorem path_of_parseDataEntry {i : ℕ} {item : Rpc.Value} {p : ParsedEntry} (h : parseDataEntry i item = some (.ok p))
    (own : DataEntry → Bool) (now : ℤ) (held : Held) : item.get? "path" = some (.string (held.decide own now p).2.path) := by
  have hp : ∃ path, item.get? "path" = some (.string path) ∧
      match p with
      | .entry d => d.path = path
      | .rejected o => o.path = path := by
    unfold parseDataEntry at h
    split at h
    · rename_i path hpath
      refine ⟨path, hpath, ?_⟩
      split at h
      · obtain rfl : _ = p := Except.ok.inj (Option.some.inj h)
        rfl
      split at h
      · simp at h
      · obtain rfl : _ = p := Except.ok.inj (Option.some.inj h)
        rfl
      · obtain rfl : _ = p := Except.ok.inj (Option.some.inj h)
        rfl
    · simp at h
    · simp at h
    · simp at h
  obtain ⟨path, hpath, hp⟩ := hp
  rw [hpath]
  cases p with
  | rejected o => exact congrArg (fun s => some (Rpc.Value.string s)) hp.symm
  | entry d =>
    obtain rfl : d.path = path := hp
    unfold Held.decide
    dsimp only
    split
    · split <;> rfl
    · rfl

/-- The outcomes are those of the elements, one for each, in order: each is
what its own element comes to after the elements before it. -/
structure LinesUp (own : DataEntry → Bool) (now : ℤ) (r : Registry) (items : List Rpc.Value) (entries : List ParsedEntry)
    (outcomes : List WireOutcome) : Prop where
  count : outcomes.length = items.length
  read : ∀ (i : ℕ) (item : Rpc.Value), items[i]? = some item →
    ∃ p, entries[i]? = some p ∧ parseDataEntry i item = some (.ok p)
  each : ∀ before p after, entries = before ++ p :: after →
    outcomes[before.length]? = some (wireOutcome ((inOrder own now ⟨r, []⟩ before).1.decide own now p).2)
  path : ∀ (i : ℕ) (item : Rpc.Value), items[i]? = some item →
    ∃ o, outcomes[i]? = some o ∧ item.get? "path" = some (.string o.path)

theorem linesUp_inOrder (own : DataEntry → Bool) (now : ℤ) (r : Registry) {items : List Rpc.Value}
    {parsed : List (ℕ × ParsedEntry)} (h : parseItems 0 items = some (.ok parsed)) :
    LinesUp own now r items (parsed.map Prod.snd) ((inOrder own now ⟨r, []⟩ (parsed.map Prod.snd)).2.map wireOutcome) := by
  obtain ⟨hindices, hread⟩ := parseItems_ok h
  have hlen : items.length = parsed.length := hread.length_eq
  have hat : ∀ (i : ℕ) (item : Rpc.Value), items[i]? = some item →
      ∃ p, (parsed.map Prod.snd)[i]? = some p ∧ parseDataEntry i item = some (.ok p) := by
    intro i item hitem
    obtain ⟨hi, rfl⟩ := List.getElem?_eq_some_iff.mp hitem
    have hp : parsed[i]? = some parsed[i] := List.getElem?_eq_getElem (hlen ▸ hi)
    refine ⟨parsed[i].2, by rw [List.getElem?_map, hp]; rfl, ?_⟩
    have hfst : parsed[i].1 = i := by
      have hget : (parsed.map Prod.fst)[i]? = (List.range' 0 items.length)[i]? := by rw [hindices]
      rw [List.getElem?_map, hp, List.getElem?_range' hi] at hget
      simpa using hget
    simpa [hfst] using (List.forall₂_iff_get.mp hread).2 i hi (hlen ▸ hi)
  have heach : ∀ before p after, parsed.map Prod.snd = before ++ p :: after →
      ((inOrder own now ⟨r, []⟩ (parsed.map Prod.snd)).2.map wireOutcome)[before.length]? =
        some (wireOutcome ((inOrder own now ⟨r, []⟩ before).1.decide own now p).2) := by
    intro before p after hentries
    rw [hentries, inOrder_append, List.map_append, List.getElem?_append_right (by rw [List.length_map, length_inOrder]),
      List.length_map, length_inOrder, Nat.sub_self]
    rfl
  refine ⟨by rw [List.length_map, length_inOrder, List.length_map, hlen], hat, heach, fun i item hitem => ?_⟩
  obtain ⟨p, hp, hparse⟩ := hat i item hitem
  obtain ⟨hi, rfl⟩ := List.getElem?_eq_some_iff.mp hp
  have hsplit : parsed.map Prod.snd = (parsed.map Prod.snd).take i ++ (parsed.map Prod.snd)[i] :: (parsed.map Prod.snd).drop (i + 1) := by
    rw [List.getElem_cons_drop, List.take_append_drop]
  have ho := heach _ _ _ hsplit
  rw [List.length_take, Nat.min_eq_left (Nat.le_of_lt hi)] at ho
  exact ⟨_, ho, path_of_parseDataEntry hparse own now _⟩

/-- **The outcomes line up**: whatever mix of registry keys, sigilled keys and
rejected items a list holds, both calls report one outcome for each element in
the caller's order, the element's own, and leave the registry and the facts of
the walk. -/
theorem outcomes_line_up (r : Registry) (items : List Rpc.Value) (parsed : List (ℕ × ParsedEntry)) (now : ℤ)
    (saved : Except String Unit) (h : parseDataEntries (some (.array items)) = some (.ok parsed)) :
    (∃ a, applyCaseDataEntries (some r) (some (.array items)) now saved =
          some (some (inOrder isScoped now ⟨r, []⟩ (parsed.map Prod.snd)).1.registry, .ok a) ∧
        a.facts = (inOrder isScoped now ⟨r, []⟩ (parsed.map Prod.snd)).1.facts ∧
        LinesUp isScoped now r items (parsed.map Prod.snd) a.wire) ∧
      ∃ outcomes e, applyDataEntries (some r) (some (.array items)) now saved =
          some (some (inOrder (fun _ => false) now ⟨r, []⟩ (parsed.map Prod.snd)).1.registry, .ok (outcomes, e)) ∧
        LinesUp (fun _ => false) now r items (parsed.map Prod.snd) outcomes := by
  have hitems : parseItems 0 items = some (.ok parsed) := by
    unfold parseDataEntries at h
    cases items with
    | nil => simp [Rpc.Value.asArray] at h
    | cons item items => exact h
  have hasc : Asc Prod.fst parsed := by
    have hpairwise : (List.range' 0 items.length).Pairwise (· < ·) := List.pairwise_lt_range'
    rw [← (parseItems_ok hitems).1] at hpairwise
    exact List.pairwise_map.mp hpairwise
  have hdata : noData (some (.array items)) = false := by
    cases items with
    | nil => simp [parseDataEntries, Rpc.Value.asArray] at h
    | cons => rfl
  constructor
  · have hwalk := (@split_inOrder isScoped now r parsed).1
    have hmerge := @mergeOutcomes_inOrder isScoped now r parsed hasc
    unfold applyCaseDataEntries
    rw [hdata, h]
    dsimp only
    rw [if_neg Bool.false_ne_true, splitEntries_eq, hwalk]
    split
    · rename_i hempty
      rw [List.isEmpty_iff] at hempty
      rw [hempty] at hmerge ⊢
      refine ⟨_, rfl, rfl, ?_⟩
      have hdecided : mergeOutcomes [] [] (setAllApart isScoped parsed).decided = _ := hmerge
      rw [AppliedData.wire, hdecided]
      exact linesUp_inOrder isScoped now r hitems
    · refine ⟨_, rfl, rfl, ?_⟩
      rw [AppliedData.wire, hmerge]
      exact linesUp_inOrder isScoped now r hitems
  · have hwalk := (@split_inOrder (fun _ => false) now r parsed).1
    have hmerge := @mergeOutcomes_inOrder (fun _ => false) now r parsed hasc
    rw [setAllApart_none] at hwalk hmerge
    unfold applyDataEntries
    rw [h]
    dsimp only
    rw [hmerge, hwalk]
    exact ⟨_, _, rfl, linesUp_inOrder (fun _ => false) now r hitems⟩

/-- A registry key, a sigilled one, a lifetime without a unit and a value of
another type. -/
def mixed : List Rpc.Value :=
  [.object [("path", .string "/a"), ("value", .string "1")], .object [("path", .string "@/b"), ("value", .string "2")],
    .object [("path", .string "/c"), ("ttl", .string "5")], .object [("path", .string "/d"), ("value", .bool true)]]

theorem outcomes_line_up_mixed : ∃ a, applyCaseDataEntries (some .new) (some (.array mixed)) 0 (.ok ()) =
      some (some (inOrder isScoped 0 ⟨.new, []⟩ [.entry ⟨"/a", some "1", none⟩, .entry ⟨"@/b", some "2", none⟩,
        .rejected ⟨"/c", .rejected .malformedTtl⟩, .rejected ⟨"/d", .rejected .malformedValue⟩]).1.registry, .ok a) ∧
    a.wire.length = 4 :=
  let ⟨a, happlied, _, hlines⟩ := (outcomes_line_up .new mixed [(0, .entry ⟨"/a", some "1", none⟩),
    (1, .entry ⟨"@/b", some "2", none⟩), (2, .rejected ⟨"/c", .rejected .malformedTtl⟩),
    (3, .rejected ⟨"/d", .rejected .malformedValue⟩)] 0 (.ok ()) rfl).1
  ⟨a, happlied, hlines.count⟩

end Cases
end Logmon
