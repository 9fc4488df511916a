/-
# Breakdowns

`group_rows` of `collector/project.rs`: the rows of a profile by name, group,
trace or path, ranked and cut after the first `top_n`.

Name and group rows carry exact statistics and are ranked by their total. A
trace row carries none, so the ranking takes zero for its total and goes by
key: the rows that survive the cut are the smallest trace ids, and they are
the longest traces only when the ids happen to stand so
(`breakdown_top_iff`).

Key definitions: `groupRows`, `rankAndTruncate`, `rowTime`, `TruncatesToTop`,
`TracesInOrder`.
Key theorems: `truncatesToTop_ranked`, `breakdown_top_iff`.
-/
import Logmon.Collector.Arms
import Logmon.Collector.Paths
import Logmon.Lib.Hex
import Logmon.Lib.Ranking
import Mathlib.Data.Rat.Defs
import Mathlib.Data.String.Basic

namespace Logmon

open Lib

/-! ### Rows -/

/-- What a profile breaks down by. -/
inductive GroupBy
  | none
  | name
  | group
  | trace
  | path
  deriving DecidableEq

namespace GroupBy

def asStr : GroupBy → String
  | .none => "none"
  | .name => "name"
  | .group => "group"
  | .trace => "trace"
  | .path => "path"

/-- Whether the rows come from the sample tier. -/
def isSampleDerived : GroupBy → Bool
  | .trace => true
  | .path => true
  | _ => false

end GroupBy

/-- What a caller can vary at read time, beside the warm-up cut. -/
structure ProfileOptions where
  groupBy : GroupBy
  topN : ℕ

/-- `ProfileExact`, less its average. -/
structure ProfileExact (F : Type) where
  count : ℕ
  totalMs : F
  minMs : Option F
  maxMs : Option F
  errorCount : ℕ
  outOfRangeSpans : ℕ

/-- `ProfileEstimated`, less its quantiles. -/
structure ProfileEstimated where
  axis : String

/-- One row of a breakdown. -/
structure ProfileGroup (F : Type) where
  key : String
  exact : Option (ProfileExact F)
  estimated : Option ProfileEstimated
  sampled : Option (ProfileSampled F)
  pathIncomplete : Bool

section
variable {F S : Type} (nsToMs : ℤ → F)

def exactView (e : ExactStats S) : ProfileExact F where
  count := e.count
  totalMs := nsToMs e.totalNs
  minMs := e.minNs.map nsToMs
  maxMs := e.maxNs.map nsToMs
  errorCount := e.errorCount
  outOfRangeSpans := e.outOfRangeSpans

/-- A row straight off the exact tier. -/
def exactRow (axis : String) (key : String) (e : ExactStats S) : ProfileGroup F :=
  ⟨key, some (exactView nsToMs e), some ⟨axis⟩, none, false⟩

/-- A trace's row. There is no exact aggregate per trace, by design. -/
def traceRow (complete : Bool) (trace : ℕ) (durations : List ℤ) (union : ℤ) : ProfileGroup F where
  key := hex 32 trace
  exact := none
  estimated := none
  sampled := some
    { complete
      sampleCount := durations.length
      durationsMs := none
      selfMs := none
      nestedMatches := 0
      overlappingChildMs := nsToMs 0
      overlappingChildSpans := 0
      wallUnionMs := some (nsToMs union) }
  pathIncomplete := false

def pathRow (complete : Bool) (p : PathAggregate) : ProfileGroup F where
  key := p.path
  exact := none
  estimated := none
  sampled := some
    { complete
      sampleCount := p.count
      durationsMs := none
      selfMs := some (nsToMs p.selfNs)
      nestedMatches := 0
      overlappingChildMs := nsToMs 0
      overlappingChildSpans := 0
      wallUnionMs := none }
  pathIncomplete := p.incomplete

end

/-! ### The ranking -/

section
variable {F S : Type} [LinearOrder F] (nsToMs : ℤ → F)

/-- The time a row is ranked by: its exact total, or 0. -/
def rankTime (row : ProfileGroup F) : F := (row.exact.map (·.totalMs)).getD (nsToMs 0)

/-- The order of `rank_and_truncate`: by total, the greatest first, then by
key. -/
def rankLe (a b : ProfileGroup F) : Prop :=
  rankTime nsToMs b < rankTime nsToMs a ∨ rankTime nsToMs a = rankTime nsToMs b ∧ a.key ≤ b.key

instance : DecidableRel (rankLe nsToMs) := fun _ _ => inferInstanceAs (Decidable (_ ∨ _))

/-- The rows kept, and how many there were. -/
def rankAndTruncate (rows : List (ProfileGroup F)) (topN : ℕ) : List (ProfileGroup F) × ℕ :=
  ((rows.insertionSort (rankLe nsToMs)).take topN, rows.length)

def exactRows (axis : String) (rows : List (String × ExactStats S)) (topN : ℕ) : List (ProfileGroup F) × ℕ :=
  rankAndTruncate nsToMs (rows.map fun r => exactRow nsToMs axis r.1 r.2) topN

/-- The rows of the traces, before they are ranked. -/
def unrankedTraces (order : MapOrder) (complete : Bool) (rs : List SampleRecord) : List (ProfileGroup F) :=
  let perTrace := FMap.collectBy SampleRecord.traceId (fun r => r.endNs - r.startNs) rs
  let intervals := FMap.collectBy SampleRecord.traceId (fun r => (r.startNs, r.endNs)) rs
  (order.rows perTrace).map fun q =>
    traceRow nsToMs complete q.1 q.2 (((intervals.get? q.1).map unionLen).getD 0)

def traceRows (order : MapOrder) (samples : SampleSnapshot) (cutNs : Option ℤ) (topN : ℕ) :
    List (ProfileGroup F) × ℕ :=
  rankAndTruncate nsToMs (unrankedTraces nsToMs order samples.complete (retained samples cutNs)) topN

/-- Path rows come ranked by self time. -/
def pathRows (order : MapOrder) (v : LiveView S) (cutNs : Option ℤ) (topN : ℕ) : List (ProfileGroup F) × ℕ :=
  let aggregates := pathAggregates order v.names v.samples cutNs
  ((aggregates.take topN).map (pathRow nsToMs v.samples.complete), aggregates.length)

/-- Why an axis of the exact tier is withheld under a warm-up cut. -/
def cutSuppressed (axis : String) (level : SampleLevel) : Suppressed where
  field := "groups"
  reason := "\x60group_by: " ++ axis ++ "\x60 reads the per-" ++ axis ++ " accumulators, which are unwindowed for " ++
    "the same reason \x60exact\x60 is — every row would carry the warm-up spans this read excluded"
  remedy := some <|
    if level.hasTree then
      "group by \x60trace\x60 or \x60path\x60, which are projected from the retained records and honour the cut; " ++
        "or reset the collector after warm-up so the window needs no cut"
    else
      "reset the collector after warm-up and read without skip_warmup_ms, so the whole window is already warm — " ++
        "the axes that do honour a cut (\x60trace\x60, \x60path\x60) need level \x60tree\x60"

/-- The rows of an axis, or why there are none. -/
def axisRows (order : MapOrder) (v : LiveView S) (opts : ProfileOptions) (cutNs : Option ℤ) :
    Except (Option Suppressed) (List (ProfileGroup F) × ℕ) :=
  match opts.groupBy with
  | .none => .error none
  | .name => .ok (exactRows nsToMs "name" ((order.rows v.perName).map fun r => (v.names.resolve r.1, r.2)) opts.topN)
  | .group =>
    if v.defn.groupKeys.isEmpty then
      .error (some ⟨"groups", "this collector declares no group_keys",
        some "define a collector with group_keys, e.g. [\"cache.enabled\"]"⟩)
    else
      .ok (exactRows nsToMs "group" ((order.rows v.perGroup).map fun r => (groupLabel v.groupValues r.1, r.2))
        opts.topN)
  | .trace => .ok (traceRows nsToMs order v.samples cutNs opts.topN)
  | .path => .ok (pathRows nsToMs order v cutNs opts.topN)

/-- `group_rows`: the rows, how many there were before the cut unless the
grouping was refused, and what was suppressed. -/
def groupRows (order : MapOrder) (v : LiveView S) (opts : ProfileOptions) (cutNs : Option ℤ) :
    (List (ProfileGroup F) × Option ℕ) × List Suppressed :=
  if opts.groupBy.isSampleDerived && !v.defn.level.hasTree then
    (([], none),
      [⟨"groups", "\x60group_by: " ++ opts.groupBy.asStr ++ "\x60 needs span identity, which level \x60" ++
          v.defn.level.asStr ++ "\x60 does not retain", some "define the collector at level \x60tree\x60"⟩])
  else
    match axisRows nsToMs order v opts cutNs with
    | .error why => (([], none), why.toList)
    | .ok (rows, total) =>
      if cutNs.isSome && !opts.groupBy.isSampleDerived then
        (([], none), [cutSuppressed opts.groupBy.asStr v.defn.level])
      else ((rows, some total), [])

/-! ### What a truncated breakdown promises -/

/-- What a row's spans took in all: its exact total where it has one, and the
durations of its trace's records where it has none. -/
def rowTime (rs : List SampleRecord) (row : ProfileGroup F) : F :=
  match row.exact with
  | some e => e.totalMs
  | none => nsToMs ((rs.filter fun r => hex 32 r.traceId = row.key).map fun r => r.endNs - r.startNs).sum

/-- Where a breakdown is not refused, it has rows that any read with a large
enough `top_n` returns; the read reports how many they are and returns the top
`top_n` of them. -/
def TruncatesToTop (time : ProfileGroup F → F) (read : MapOrder → ℕ → List (ProfileGroup F) × Option ℕ)
    (order : MapOrder) (topN : ℕ) : Prop :=
  ∀ total, (read order topN).2 = some total → ∃ all : List (ProfileGroup F),
    (∀ order' n, all.length ≤ n → (read order' n).1.Perm all) ∧ total = all.length ∧
      (read order topN).1.length = min topN all.length ∧ TopOf time all (read order topN).1

/-- What a trace's retained records took. -/
def traceTotal (rs : List SampleRecord) (trace : ℕ) : ℤ :=
  ((rs.filter fun r => r.traceId = trace).map fun r => r.endNs - r.startNs).sum

/-- How many traces have a smaller key. -/
def tracesBelow (rs : List SampleRecord) (trace : ℕ) : ℕ :=
  (rs.map SampleRecord.traceId).dedup.countP fun u => hex 32 u < hex 32 trace

/-- No trace past the first `topN` by key took longer than one among them. -/
def TracesInOrder (rs : List SampleRecord) (topN : ℕ) : Prop :=
  ∀ a ∈ rs.map SampleRecord.traceId, ∀ b ∈ rs.map SampleRecord.traceId,
    tracesBelow rs a < topN → topN ≤ tracesBelow rs b → nsToMs (traceTotal rs b) ≤ nsToMs (traceTotal rs a)

instance (rs : List SampleRecord) (topN : ℕ) : Decidable (TracesInOrder nsToMs rs topN) :=
  inferInstanceAs (Decidable (∀ a ∈ rs.map SampleRecord.traceId, ∀ b ∈ rs.map SampleRecord.traceId, _ → _ → _))

end

/-! ### The rows of the traces -/

section
variable {F : Type} {nsToMs : ℤ → F}

theorem perm_unrankedTraces (nsToMs : ℤ → F) (order : MapOrder) (complete : Bool) (rs : List SampleRecord) :
    (unrankedTraces nsToMs order complete rs).Perm ((rs.map SampleRecord.traceId).dedup.map fun t =>
      traceRow nsToMs complete t ((rs.filter fun r => r.traceId = t).map fun r => r.endNs - r.startNs)
        ((((FMap.collectBy SampleRecord.traceId (fun r => (r.startNs, r.endNs)) rs).get? t).map unionLen).getD 0)) := by
  have h := ((order.perm _).trans (FMap.perm_collectBy SampleRecord.traceId (fun r => r.endNs - r.startNs) rs)).map
    fun q : ℕ × List ℤ => traceRow nsToMs complete q.1 q.2
      ((((FMap.collectBy SampleRecord.traceId (fun r => (r.startNs, r.endNs)) rs).get? q.1).map unionLen).getD 0)
  rwa [List.map_map] at h

theorem rowTime_traceRow (rs : List SampleRecord) (complete : Bool) (t : ℕ) (ds : List ℤ) (union : ℤ) :
    rowTime nsToMs rs (traceRow nsToMs complete t ds union) = nsToMs (traceTotal rs t) := by
  have hkey : (fun r : SampleRecord => decide (hex 32 r.traceId = hex 32 t)) = fun r => decide (r.traceId = t) :=
    funext fun r => decide_eq_decide.mpr (hex_injective 32).eq_iff
  unfold traceTotal
  rw [← hkey]
  rfl

theorem rankTime_traceRow (complete : Bool) (t : ℕ) (ds : List ℤ) (union : ℤ) :
    rankTime nsToMs (traceRow nsToMs complete t ds union) = nsToMs 0 := rfl

end

/-! ### Reads that rank -/

section
variable {F S : Type} [LinearOrder F] {nsToMs : ℤ → F}

instance : Std.Total (rankLe nsToMs) where
  total a b := by
    unfold rankLe
    rcases lt_trichotomy (rankTime nsToMs a) (rankTime nsToMs b) with h | h | h
    · exact .inr (.inl h)
    · rcases String.le_total a.key b.key with hkey | hkey
      · exact .inl (.inr ⟨h, hkey⟩)
      · exact .inr (.inr ⟨h.symm, hkey⟩)
    · exact .inl (.inl h)

instance : IsTrans (ProfileGroup F) (rankLe nsToMs) where
  trans a b c := by
    rintro (hab | ⟨hab, hkab⟩) (hbc | ⟨hbc, hkbc⟩)
    · exact .inl (hbc.trans hab)
    · exact .inl (hbc ▸ hab)
    · exact .inl (hab ▸ hbc)
    · exact .inr ⟨hab.trans hbc, String.le_trans hkab hkbc⟩

/-- A read that ranks rows and cuts them reports and returns what it should,
and truncates to the top if its cut does. -/
theorem truncatesToTop_ranked {time : ProfileGroup F → F} {read : MapOrder → ℕ → List (ProfileGroup F) × Option ℕ}
    {base : MapOrder → List (ProfileGroup F)}
    (hread : ∀ order n, read order n =
      ((rankAndTruncate nsToMs (base order) n).1, some (rankAndTruncate nsToMs (base order) n).2))
    (hbase : ∀ order order', (base order).Perm (base order')) (order : MapOrder) (topN : ℕ) :
    TruncatesToTop time read order topN ↔
      TopOf time ((base order).insertionSort (rankLe nsToMs)) (((base order).insertionSort (rankLe nsToMs)).take topN) := by
  have hperm : ∀ order', ((base order').insertionSort (rankLe nsToMs)).Perm (base order) := fun order' =>
    (List.perm_insertionSort _ _).trans (hbase order' order)
  have hall : ∀ order' n, (base order).length ≤ n → (read order' n).1.Perm (base order) := by
    intro order' n hn
    rw [hread, rankAndTruncate]
    refine (List.Perm.of_eq (List.take_of_length_le ?_)).trans (hperm order')
    rw [(hperm order').length_eq]
    exact hn
  constructor
  · intro h
    obtain ⟨all, hevery, -, -, htop⟩ := h _ (congrArg Prod.snd (hread order topN))
    rw [hread] at htop
    refine htop.of_perm ((hperm order).trans ?_)
    -- one read is large enough for both
    exact (hall order (max all.length (base order).length) (le_max_right _ _)).symm.trans
      (hevery order _ (le_max_left _ _))
  · intro h total htotal
    rw [hread] at htotal
    obtain rfl := Option.some.inj htotal
    refine ⟨base order, hall, rfl, ?_, ?_⟩
    · rw [hread, rankAndTruncate, List.length_take, List.length_insertionSort]
    · rw [hread]
      exact h.of_perm (hperm order).symm

/-! ### The two tiers -/

theorem rankTime_le_of_rankLe {a b : ProfileGroup F} (h : rankLe nsToMs a b) : rankTime nsToMs b ≤ rankTime nsToMs a :=
  h.elim le_of_lt fun h => h.1.ge

/-- Rows ranked by their own time are cut to the top. -/
theorem topOf_of_rankTime {time : ProfileGroup F → F} {base : List (ProfileGroup F)}
    (htime : ∀ row ∈ base, time row = rankTime nsToMs row) (topN : ℕ) :
    TopOf time (base.insertionSort (rankLe nsToMs)) ((base.insertionSort (rankLe nsToMs)).take topN) := by
  refine topOf_take_iff.mpr fun o ho r hr => ?_
  rw [htime o ((List.mem_insertionSort _).mp (List.mem_of_mem_drop ho)),
    htime r ((List.mem_insertionSort _).mp (List.mem_of_mem_take hr))]
  exact rankTime_le_of_rankLe (rel_of_take_drop (List.pairwise_insertionSort _ base) hr ho)

/-- **Trace rows are cut by key.** -/
theorem topOf_traces_iff (order : MapOrder) (complete : Bool) (rs : List SampleRecord) (topN : ℕ) :
    TopOf (rowTime nsToMs rs) ((unrankedTraces nsToMs order complete rs).insertionSort (rankLe nsToMs))
        (((unrankedTraces nsToMs order complete rs).insertionSort (rankLe nsToMs)).take topN) ↔
      TracesInOrder nsToMs rs topN := by
  have hperm := (List.perm_insertionSort (rankLe nsToMs) _).trans (perm_unrankedTraces nsToMs order complete rs)
  have hsorted := List.pairwise_insertionSort (rankLe nsToMs) (unrankedTraces nsToMs order complete rs)
  generalize (unrankedTraces nsToMs order complete rs).insertionSort (rankLe nsToMs) = l at hperm hsorted ⊢
  set row := fun t => traceRow nsToMs complete t ((rs.filter fun r => r.traceId = t).map fun r => r.endNs - r.startNs)
    ((((FMap.collectBy SampleRecord.traceId (fun r => (r.startNs, r.endNs)) rs).get? t).map unionLen).getD 0)
  have hrow : ∀ a, a ∈ l ↔ ∃ t ∈ rs.map SampleRecord.traceId, row t = a := fun a => by
    rw [hperm.mem_iff, List.mem_map]
    simp only [List.mem_dedup]
  have hkeys : (l.map ProfileGroup.key).Nodup := by
    refine (hperm.map _).nodup_iff.mpr ?_
    rw [List.map_map]
    exact (List.nodup_dedup _).map (hex_injective 32)
  -- no row has an exact total, so the ranking is by key alone
  have hasc : l.Pairwise fun a b => a.key < b.key := by
    refine List.Pairwise.imp_of_mem ?_ (hsorted.and (List.pairwise_map.mp hkeys))
    intro a b ha hb h
    obtain ⟨t, -, rfl⟩ := (hrow a).mp ha
    obtain ⟨u, -, rfl⟩ := (hrow b).mp hb
    rcases h.1 with hlt | ⟨-, hle⟩
    · rw [rankTime_traceRow, rankTime_traceRow] at hlt
      exact absurd hlt (lt_irrefl _)
    · exact lt_of_le_of_ne hle h.2
  have hcount : ∀ t, l.countP (fun b => b.key < (row t).key) = tracesBelow rs t := fun t => by
    rw [hperm.countP_eq, List.countP_map]
    rfl
  have htake : ∀ t ∈ rs.map SampleRecord.traceId, (row t ∈ l.take topN ↔ tracesBelow rs t < topN) := fun t ht => by
    rw [mem_take_iff_countP ProfileGroup.key hasc ((hrow _).mpr ⟨t, ht, rfl⟩), hcount]
  have hdrop : ∀ t ∈ rs.map SampleRecord.traceId, (row t ∈ l.drop topN ↔ topN ≤ tracesBelow rs t) := fun t ht => by
    have hmem : row t ∈ l.take topN ++ l.drop topN := by
      rw [List.take_append_drop]
      exact (hrow _).mpr ⟨t, ht, rfl⟩
    rw [← Nat.not_lt, ← htake t ht]
    refine ⟨fun hd hk => ?_, fun hk => (List.mem_append.mp hmem).resolve_left hk⟩
    exact lt_irrefl _ (rel_of_take_drop hasc hk hd)
  rw [topOf_take_iff]
  constructor
  · intro h a ha b hb hbelow hpast
    have hle := h _ ((hdrop b hb).mpr hpast) _ ((htake a ha).mpr hbelow)
    rwa [rowTime_traceRow, rowTime_traceRow] at hle
  · intro h o ho r hr
    obtain ⟨b, hb, rfl⟩ := (hrow o).mp (List.mem_of_mem_drop ho)
    obtain ⟨a, ha, rfl⟩ := (hrow r).mp (List.mem_of_mem_take hr)
    rw [rowTime_traceRow, rowTime_traceRow]
    exact h a ha b hb ((htake a ha).mp hr) ((hdrop b hb).mp ho)

/-! ### Every axis -/

/-- A refused grouping returns no rows and promises none. -/
theorem truncatesToTop_refused {time : ProfileGroup F → F}
    {read : MapOrder → ℕ → List (ProfileGroup F) × Option ℕ} {order : MapOrder} {topN : ℕ}
    (h : (read order topN).2 = none) : TruncatesToTop time read order topN := by
  intro total htotal
  rw [h] at htotal
  cases htotal

variable {S K : Type}

/-- Rows off a map of exact statistics are cut to the top. -/
theorem truncatesToTop_exact (rs : List SampleRecord) (axis : String) (label : K → String) (m : FMap K (ExactStats S))
    {read : MapOrder → ℕ → List (ProfileGroup F) × Option ℕ}
    (hread : ∀ order n, read order n =
      let rows := exactRows nsToMs axis ((order.rows m).map fun r => (label r.1, r.2)) n
      (rows.1, some rows.2)) (order : MapOrder) (topN : ℕ) :
    TruncatesToTop (rowTime nsToMs rs) read order topN := by
  have hperm : ∀ order order' : MapOrder, (order.rows m).Perm (order'.rows m) := fun order order' =>
    (order.perm m).trans (order'.perm m).symm
  refine (truncatesToTop_ranked hread (fun order order' => ((hperm order order').map _).map _) order topN).mpr ?_
  refine topOf_of_rankTime (fun row hrow => ?_) topN
  obtain ⟨r, -, rfl⟩ := List.mem_map.mp hrow
  rfl

theorem truncatesToTop_traces_iff (nsToMs : ℤ → F) (order : MapOrder) (v : LiveView S)
    (htree : v.defn.level.hasTree = true) (topN : ℕ) (cutNs : Option ℤ) :
    TruncatesToTop (rowTime nsToMs (retained v.samples cutNs))
        (fun order n => (groupRows nsToMs order v ⟨.trace, n⟩ cutNs).1) order topN ↔
      TracesInOrder nsToMs (retained v.samples cutNs) topN := by
  have hread : ∀ order n, (groupRows nsToMs order v ⟨.trace, n⟩ cutNs).1 =
      ((traceRows nsToMs order v.samples cutNs n).1, some (traceRows nsToMs order v.samples cutNs n).2) :=
    fun order n => by simp [groupRows, axisRows, GroupBy.isSampleDerived, htree]
  have hperm : ∀ order order' : MapOrder,
      (unrankedTraces nsToMs order v.samples.complete (retained v.samples cutNs)).Perm
        (unrankedTraces nsToMs order' v.samples.complete (retained v.samples cutNs)) := fun order order' =>
    (perm_unrankedTraces nsToMs order _ _).trans (perm_unrankedTraces nsToMs order' _ _).symm
  rw [truncatesToTop_ranked hread hperm, topOf_traces_iff]

/-- **A truncated breakdown is the top of the ranking**, by name and by group
always, and by trace exactly when no trace past the first `topN` by key took
longer than one among them. -/
theorem breakdown_top_iff (nsToMs : ℤ → F) (order : MapOrder) (v : LiveView S) (axis : GroupBy)
    (haxis : axis ≠ .path) (topN : ℕ) (cutNs : Option ℤ) :
    TruncatesToTop (rowTime nsToMs (retained v.samples cutNs))
        (fun order n => (groupRows nsToMs order v ⟨axis, n⟩ cutNs).1) order topN ↔
      (axis = .trace → v.defn.level.hasTree = true → TracesInOrder nsToMs (retained v.samples cutNs) topN) := by
  cases axis with
  | path => exact absurd rfl haxis
  | none => exact iff_of_true (truncatesToTop_refused rfl) nofun
  | name =>
    refine iff_of_true ?_ nofun
    cases cutNs with
    | some c => exact truncatesToTop_refused rfl
    | none => exact truncatesToTop_exact _ "name" v.names.resolve v.perName (fun _ _ => rfl) order topN
  | group =>
    refine iff_of_true ?_ nofun
    cases hkeys : v.defn.groupKeys.isEmpty with
    | true =>
      refine truncatesToTop_refused ?_
      simp [groupRows, axisRows, GroupBy.isSampleDerived, hkeys]
    | false =>
      cases cutNs with
      | some c =>
        refine truncatesToTop_refused ?_
        simp [groupRows, axisRows, GroupBy.isSampleDerived, hkeys]
      | none =>
        refine truncatesToTop_exact _ "group" (groupLabel v.groupValues) v.perGroup (fun order n => ?_) order topN
        simp [groupRows, axisRows, GroupBy.isSampleDerived, hkeys]
  | trace =>
    cases htree : v.defn.level.hasTree with
    | false =>
      refine iff_of_true (truncatesToTop_refused ?_) nofun
      simp [groupRows, GroupBy.isSampleDerived, htree]
    | true =>
      rw [truncatesToTop_traces_iff nsToMs order v htree]
      exact ⟨fun h _ _ => h, fun h => h rfl rfl⟩

end

/-- Milliseconds as rationals. -/
def exactMs (ns : ℤ) : ℚ := ns / 1000000

/-- A span of a trace. -/
def spanOf (trace : ℕ) (startTime endTime : ℤ) : SpanEntry :=
  ⟨1, trace, 1, none, startTime, endTime, 0, "work", .internal, "svc", .unset, [], [], one_le_u64Max⟩

/-- What a collector at level `tree` shows after two traces, of 2 ms and of the
given length. -/
def twoTraces (ns : ℤ) : LiveView Unit :=
  let ops : SketchOps Unit := ⟨(), fun _ _ => ()⟩
  let defn : CollectorDef := ⟨"c", "", .all, .tree, [], 65536, none, none⟩
  (((LiveCollector.new ops defn 0).ingest ops (spanOf 1 1000000 3000000)).ingest ops
    (spanOf 2 1000000 (1000000 + ns))).snapshot

theorem breakdown_top_shorter :
    TruncatesToTop (rowTime exactMs (retained (twoTraces 1000000).samples none))
      (fun order n => (groupRows exactMs order (twoTraces 1000000) ⟨.trace, n⟩ none).1) .asListed 1 :=
  (breakdown_top_iff exactMs .asListed (twoTraces 1000000) .trace (by decide) 1 none).mpr fun _ _ => by decide +kernel

/-- The second trace takes 9 ms, and the first is the row returned. -/
theorem breakdown_not_top :
    ¬ TruncatesToTop (rowTime exactMs (retained (twoTraces 9000000).samples none))
      (fun order n => (groupRows exactMs order (twoTraces 9000000) ⟨.trace, n⟩ none).1) .asListed 1 := by
  rw [truncatesToTop_traces_iff exactMs .asListed (twoTraces 9000000) rfl]
  decide +kernel

end Logmon
