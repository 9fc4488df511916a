/-
# Folding into groups

A map that keeps one accumulator for each group: an element that comes under a
new key starts one, any other is added to its key's. What a key holds is the
fold of the elements that came under it (`Gathered`), the accumulators add up
to the elements, and a key more is a row more.

Key definitions: `foldGroup`, `gather`, `under`, `Gathered`.
Key theorems: `foldGroup_concat`, `Gathered.gather`, `Gathered.isSome_iff`,
`sum_gather`, `length_gather`.
-/
import Logmon.Lib.FMap

namespace Logmon
namespace Lib

variable {K A V : Type} [DecidableEq K] (start : A → V) (add : V → A → V)

/-- The accumulator of a group's elements, if there are any. -/
def foldGroup : List A → Option V
  | [] => none
  | a :: l => some (l.foldl add (start a))

theorem foldGroup_concat (l : List A) (a : A) :
    foldGroup start add (l ++ [a]) = some (((foldGroup start add l).map fun v => add v a).getD (start a)) := by
  cases l with
  | nil => rfl
  | cons b l => simp [foldGroup, List.foldl_append]

theorem foldGroup_eq_none_iff {l : List A} : foldGroup start add l = none ↔ l = [] := by
  cases l <;> simp [foldGroup]

/-- Put an element under its key. -/
def gather (m : FMap K V) (k : K) (a : A) : FMap K V :=
  m.insert k (((m.get? k).map fun v => add v a).getD (start a))

/-- The elements that came under a key, in order. -/
def under (filed : List (K × A)) (k : K) : List A := (filed.filter (·.1 = k)).map Prod.snd

@[simp] theorem under_nil (k : K) : under ([] : List (K × A)) k = [] := rfl

theorem under_append (l m : List (K × A)) (k : K) : under (l ++ m) k = under l k ++ under m k := by
  simp [under]

theorem under_singleton (k' : K) (a : A) (k : K) : under [(k', a)] k = if k' = k then [a] else [] := by
  unfold under
  rw [List.filter_singleton]
  by_cases h : k' = k <;> simp [h]

theorem mem_under {filed : List (K × A)} {k : K} {a : A} : a ∈ under filed k ↔ (k, a) ∈ filed := by
  simp [under]

theorem under_eq_nil_iff {filed : List (K × A)} {k : K} : under filed k = [] ↔ ∀ a, (k, a) ∉ filed := by
  simp only [List.eq_nil_iff_forall_not_mem, mem_under]

/-- A map that holds, for each key, the fold of what came under it. -/
def Gathered (m : FMap K V) (filed : List (K × A)) : Prop := ∀ k, m.get? k = foldGroup start add (under filed k)

variable {start add}

theorem Gathered.empty : Gathered start add (∅ : FMap K V) [] := fun _ => rfl

/-- **One element more.** -/
theorem Gathered.gather {m : FMap K V} {filed : List (K × A)} (h : Gathered start add m filed) (k : K) (a : A) :
    Gathered start add (gather start add m k a) (filed ++ [(k, a)]) := by
  intro k'
  rw [Lib.gather, FMap.get?_insert, under_append, under_singleton]
  by_cases hk : k' = k
  · subst hk
    rw [if_pos rfl, if_pos rfl, foldGroup_concat, h k']
  · rw [if_neg hk, if_neg (Ne.symm hk), List.append_nil, h k']

/-- The keys are those something came under. -/
theorem Gathered.isSome_iff {m : FMap K V} {filed : List (K × A)} (h : Gathered start add m filed) {k : K} :
    (m.get? k).isSome ↔ ∃ a, (k, a) ∈ filed := by
  rw [h k, Option.isSome_iff_ne_none, ne_eq, foldGroup_eq_none_iff, under_eq_nil_iff]
  simp

variable (start add)

/-- **The accumulators add up to the elements.** -/
theorem sum_gather {M : Type} [AddCommMonoid M] (g : V → M) (w : A → M) (hstart : ∀ a, g (start a) = w a)
    (hadd : ∀ v a, g (add v a) = g v + w a) (m : FMap K V) (k : K) (a : A) :
    ((gather start add m k a).entries.map fun q => g q.2).sum = (m.entries.map fun q => g q.2).sum + w a := by
  refine FMap.sum_insert g ?_
  cases m.get? k with
  | none => rw [Option.map_none, Option.getD_none, hstart, Option.map_none, Option.getD_none, zero_add]
  | some v => rw [Option.map_some, Option.getD_some, hadd, Option.map_some, Option.getD_some]

theorem length_gather (m : FMap K V) (k : K) (a : A) :
    (gather start add m k a).entries.length =
      if (m.get? k).isSome then m.entries.length else m.entries.length + 1 := by
  have hlen : (gather start add m k a).entries.length = (m.erase k).entries.length + 1 := rfl
  rw [hlen]
  cases hk : m.get? k with
  | none => rw [FMap.entries_erase_of_none hk]; rfl
  | some v => rw [(FMap.perm_erase hk).length_eq]; rfl

end Lib
end Logmon
