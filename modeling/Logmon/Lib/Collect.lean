/-
# Pairs collected into a map

A map with ordered keys, as the list of its bindings in key order, and what
collecting a list of pairs makes of them: of several pairs of one key the last
stays. Two lists collect to one map exactly when their last pairs agree
(`collect_eq_iff`).

Key definitions: `valueOf`, `lastOf`, `setKey`, `collect`.
Key theorems: `valueOf_collect`, `collect_eq_iff`.
-/
import Mathlib.Data.List.Basic
import Mathlib.Data.List.Induction
import Mathlib.Order.Basic
import Mathlib.Tactic.Linarith

namespace Logmon
namespace Lib

variable {κ α β : Type*} [LinearOrder κ]

/-- The value of the first pair with the key. -/
def valueOf (l : List (κ × α)) (k : κ) : Option α := (l.find? fun q => q.1 = k).map Prod.snd

/-- The value of the last pair with the key. -/
def lastOf (l : List (κ × α)) (k : κ) : Option α := valueOf l.reverse k

/-- Bind a key in a list of bindings, in key order. -/
def setKey (k : κ) (v : α) : List (κ × α) → List (κ × α)
  | [] => [(k, v)]
  | q :: l => if k < q.1 then (k, v) :: q :: l else if k = q.1 then (k, v) :: l else q :: setKey k v l

/-- The map of a list of pairs. -/
def collect (l : List (κ × α)) : List (κ × α) := l.foldl (fun m q => setKey q.1 q.2 m) []

@[simp] theorem valueOf_nil (k : κ) : valueOf ([] : List (κ × α)) k = none := rfl

theorem valueOf_cons (q : κ × α) (l : List (κ × α)) (k : κ) :
    valueOf (q :: l) k = if q.1 = k then some q.2 else valueOf l k := by
  unfold valueOf
  rw [List.find?_cons]
  by_cases h : q.1 = k <;> simp [h]

theorem valueOf_append (l m : List (κ × α)) (k : κ) : valueOf (l ++ m) k = (valueOf l k).or (valueOf m k) := by
  unfold valueOf
  rw [List.find?_append]
  cases List.find? (fun q => decide (q.1 = k)) l <;> rfl

theorem lastOf_nil (k : κ) : lastOf ([] : List (κ × α)) k = none := rfl

theorem lastOf_concat (l : List (κ × α)) (q : κ × α) (k : κ) :
    lastOf (l ++ [q]) k = if q.1 = k then some q.2 else lastOf l k := by
  unfold lastOf
  rw [List.reverse_append, List.reverse_singleton, List.singleton_append, valueOf_cons]

theorem lastOf_append (l m : List (κ × α)) (k : κ) : lastOf (l ++ m) k = (lastOf m k).or (lastOf l k) := by
  unfold lastOf
  rw [List.reverse_append, valueOf_append]

/-- Of a list with one more pair in front, the last pair of a key. -/
theorem lastOf_cons (q : κ × α) (l : List (κ × α)) (k : κ) :
    lastOf (q :: l) k = (lastOf l k).or (if q.1 = k then some q.2 else none) := by
  rw [← List.singleton_append, lastOf_append]
  congr 1
  rw [← List.nil_append [q], lastOf_concat, lastOf_nil]

theorem mem_of_lastOf {l : List (κ × α)} {k : κ} {v : α} (h : lastOf l k = some v) : (k, v) ∈ l := by
  unfold lastOf valueOf at h
  obtain ⟨⟨k', v'⟩, hq, rfl⟩ := Option.map_eq_some_iff.mp h
  have hk : k' = k := of_decide_eq_true (List.find?_some (p := fun q : κ × α => decide (q.1 = k)) hq)
  exact List.mem_reverse.mp (hk ▸ List.mem_of_find?_eq_some hq)

theorem lastOf_isSome_of_mem {l : List (κ × α)} {k : κ} {v : α} (h : (k, v) ∈ l) : (lastOf l k).isSome = true := by
  unfold lastOf valueOf
  rw [Option.isSome_map]
  exact List.find?_isSome.mpr ⟨(k, v), List.mem_reverse.mpr h, decide_eq_true rfl⟩

/-- Reading the values otherwise keeps which pair is the last. -/
theorem lastOf_map (f : α → β) (l : List (κ × α)) (k : κ) :
    lastOf (l.map fun q => (q.1, f q.2)) k = (lastOf l k).map f := by
  induction l using List.reverseRecOn with
  | nil => rfl
  | append_singleton l q ih =>
    rw [List.map_append, List.map_singleton, lastOf_concat, lastOf_concat, ih]
    split <;> rfl

/-- Only the pairs of the key decide which of them is the last. -/
theorem lastOf_filter_congr {p q : κ × α → Bool} {k : κ} (h : ∀ v, p (k, v) = q (k, v)) (l : List (κ × α)) :
    lastOf (l.filter p) k = lastOf (l.filter q) k := by
  induction l using List.reverseRecOn with
  | nil => rfl
  | append_singleton l r ih =>
    rw [List.filter_append, List.filter_append, lastOf_append, lastOf_append, ih]
    congr 1
    obtain ⟨k', v⟩ := r
    by_cases hk : k' = k
    · subst hk
      rw [List.filter_singleton, List.filter_singleton, h]
    · have hnone : ∀ p : κ × α → Bool, lastOf ([(k', v)].filter p) k = none := by
        intro p
        rw [List.filter_singleton]
        cases p (k', v) with
        | false => rfl
        | true => exact (lastOf_cons (k', v) [] k).trans (by rw [if_neg hk]; rfl)
      rw [hnone, hnone]

/-- The last pair of a key stays the last where it is kept. -/
theorem lastOf_filter {p : κ × α → Bool} {l : List (κ × α)} {k : κ} {v : α} (h : lastOf l k = some v)
    (hp : p (k, v) = true) : lastOf (l.filter p) k = some v := by
  induction l using List.reverseRecOn with
  | nil => cases h
  | append_singleton l r ih =>
    rw [lastOf_concat] at h
    rw [List.filter_append, lastOf_append, List.filter_singleton]
    by_cases hk : r.1 = k
    · rw [if_pos hk] at h
      obtain rfl := Option.some.inj h
      obtain rfl := hk
      rw [hp]
      exact congrArg (Option.or · _) ((lastOf_cons r [] r.1).trans (by rw [if_pos rfl]))
    · rw [if_neg hk] at h
      rw [ih h]
      cases p r with
      | false => rfl
      | true => exact congrArg (Option.or · _) ((lastOf_cons r [] k).trans (by rw [if_neg hk]))

theorem valueOf_setKey (k k' : κ) (v : α) : ∀ l : List (κ × α),
    valueOf (setKey k v l) k' = if k = k' then some v else valueOf l k'
  | [] => by rw [setKey, valueOf_cons]
  | q :: l => by
    unfold setKey
    split
    · rw [valueOf_cons]
    · split
      · rename_i heq
        rw [valueOf_cons, valueOf_cons]
        by_cases hk : k = k'
        · rw [if_pos hk, if_pos hk]
        · rw [if_neg hk, if_neg hk, if_neg fun h => hk (heq.trans h)]
      · rename_i hne
        rw [valueOf_cons, valueOf_cons, valueOf_setKey k k' v l]
        by_cases hk : k = k'
        · rw [if_pos hk, if_pos hk, if_neg fun h => hne (hk.trans h.symm)]
        · rw [if_neg hk, if_neg hk]

/-- **Collecting keeps the last pair of each key.** -/
theorem valueOf_collect (l : List (κ × α)) (k : κ) : valueOf (collect l) k = lastOf l k := by
  induction l using List.reverseRecOn with
  | nil => rfl
  | append_singleton l q ih =>
    unfold collect at ih ⊢
    rw [List.foldl_concat, valueOf_setKey, lastOf_concat, ih]

/-! ### Bindings in key order -/

theorem sorted_setKey (k : κ) (v : α) : ∀ {l : List (κ × α)}, l.Pairwise (fun a b => a.1 < b.1) →
    (setKey k v l).Pairwise fun a b => a.1 < b.1
  | [], _ => List.pairwise_singleton _ _
  | q :: l, h => by
    obtain ⟨hq, hl⟩ := List.pairwise_cons.mp h
    unfold setKey
    split
    · rename_i hlt
      refine List.pairwise_cons.mpr ⟨fun b hb => ?_, h⟩
      rcases List.mem_cons.mp hb with rfl | hb
      · exact hlt
      · exact hlt.trans (hq b hb)
    · split
      · rename_i heq
        exact List.pairwise_cons.mpr ⟨fun b hb => heq ▸ hq b hb, hl⟩
      · rename_i hlt hne
        refine List.pairwise_cons.mpr ⟨fun b hb => ?_, sorted_setKey k v hl⟩
        have hqk : q.1 < k := lt_of_le_of_ne (le_of_not_gt hlt) (Ne.symm hne)
        have hmem : ∀ {l : List (κ × α)}, b ∈ setKey k v l → b = (k, v) ∨ b ∈ l := by
          intro l
          induction l with
          | nil => exact fun hb => .inl (List.mem_singleton.mp hb)
          | cons r l ih =>
            intro hb
            unfold setKey at hb
            split at hb
            · exact List.mem_cons.mp hb
            · split at hb
              · exact (List.mem_cons.mp hb).imp_right (List.mem_cons_of_mem _)
              · rcases List.mem_cons.mp hb with rfl | hb
                · exact .inr List.mem_cons_self
                · exact (ih hb).imp_right (List.mem_cons_of_mem _)
        rcases hmem hb with rfl | hb
        · exact hqk
        · exact hq b hb

theorem sorted_collect (l : List (κ × α)) : (collect l).Pairwise fun a b => a.1 < b.1 := by
  induction l using List.reverseRecOn with
  | nil => exact List.Pairwise.nil
  | append_singleton l q ih =>
    unfold collect at ih ⊢
    rw [List.foldl_concat]
    exact sorted_setKey q.1 q.2 ih

theorem valueOf_eq_none_of_lt {l : List (κ × α)} {k : κ} (h : ∀ q ∈ l, k < q.1) : valueOf l k = none := by
  unfold valueOf
  rw [Option.map_eq_none_iff]
  exact List.find?_eq_none.mpr fun q hq => by simpa using (h q hq).ne'

theorem eq_of_valueOf_eq : ∀ {l m : List (κ × α)}, l.Pairwise (fun a b => a.1 < b.1) →
    m.Pairwise (fun a b => a.1 < b.1) → (∀ k, valueOf l k = valueOf m k) → l = m
  | [], [], _, _, _ => rfl
  | [], q :: m, _, _, h => by
    have := h q.1
    rw [valueOf_nil, valueOf_cons, if_pos rfl] at this
    cases this
  | q :: l, [], _, _, h => by
    have := h q.1
    rw [valueOf_nil, valueOf_cons, if_pos rfl] at this
    cases this
  | (k, v) :: l, (k', v') :: m, hl, hm, h => by
    obtain ⟨hk, htail⟩ := List.pairwise_cons.mp hl
    obtain ⟨hk', htail'⟩ := List.pairwise_cons.mp hm
    have heq : k = k' := by
      rcases lt_trichotomy k k' with hlt | heq | hlt
      · have := h k
        rw [valueOf_cons, if_pos rfl, valueOf_cons, if_neg hlt.ne',
          valueOf_eq_none_of_lt fun q hq => hlt.trans (hk' q hq)] at this
        cases this
      · exact heq
      · have := h k'
        rw [valueOf_cons, if_neg hlt.ne', valueOf_cons, if_pos rfl,
          valueOf_eq_none_of_lt fun q hq => hlt.trans (hk q hq)] at this
        cases this
    subst heq
    have hv := h k
    rw [valueOf_cons, if_pos rfl, valueOf_cons, if_pos rfl] at hv
    obtain rfl : v = v' := Option.some.inj hv
    refine congrArg _ (eq_of_valueOf_eq htail htail' fun c => ?_)
    by_cases hc : k = c
    · subst hc
      rw [valueOf_eq_none_of_lt fun q hq => hk q hq, valueOf_eq_none_of_lt fun q hq => hk' q hq]
    · have := h c
      rwa [valueOf_cons, if_neg hc, valueOf_cons, if_neg hc] at this

/-- **Two lists collect to one map** exactly when their last pairs agree. -/
theorem collect_eq_iff {l m : List (κ × α)} : collect l = collect m ↔ ∀ k, lastOf l k = lastOf m k := by
  constructor
  · intro h k
    rw [← valueOf_collect, h, valueOf_collect]
  · intro h
    refine eq_of_valueOf_eq (sorted_collect l) (sorted_collect m) fun k => ?_
    rw [valueOf_collect, valueOf_collect, h]

end Lib
end Logmon
