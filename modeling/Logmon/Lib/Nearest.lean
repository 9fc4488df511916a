/-
# The nearest elements of two lists

A program that keeps the nearest `n` elements of two lists together may cut
one of them to its own nearest `n` first: what that cut drops lies past `n`
elements, and none of it is kept. The last element kept is then an edge that
exactly the kept elements lie within.

Nearness is a total order `le` on the elements, decided by a `Bool`.

Key definitions: `Closest`, `nearest`, `edge`.
Key theorems: `closest_nearest`, `Closest.within_edge`.
-/
import Logmon.Lib.Ascending
import Mathlib.Data.List.Perm.Subperm
import Mathlib.Order.MinMax
import Mathlib.Tactic.Common

namespace Logmon
namespace Lib

variable {α : Type*} (le : α → α → Bool)

/-- `kept` is `n` elements of `l` that no other is nearer than, or all there
are. -/
structure Closest (n : ℕ) (l kept : List α) : Prop where
  sub : kept ⊆ l
  nodup : kept.Nodup
  length : kept.length = min n l.length
  near : ∀ x ∈ l, x ∉ kept → ∀ y ∈ kept, le y x = true

/-- Sort, nearest first, and keep `n`. -/
def nearest (n : ℕ) (l : List α) : List α := (l.mergeSort le).take n

/-- The last element kept, or `a` when none is. -/
def edge (a : α) (kept : List α) : α := kept.getLast?.getD a

variable {le}

/-- The order's laws. -/
structure TotalOrder (le : α → α → Bool) : Prop where
  trans : ∀ a b c, le a b = true → le b c = true → le a c = true
  total : ∀ a b, (le a b || le b a) = true
  antisymm : ∀ a b, le a b = true → le b a = true → a = b

theorem totalOrder_le : TotalOrder fun a b : ℕ => decide (a ≤ b) where
  trans a b c h1 h2 := by simp only [decide_eq_true_eq] at *; omega
  total a b := by simp only [Bool.or_eq_true, decide_eq_true_eq]; omega
  antisymm a b h1 h2 := by simp only [decide_eq_true_eq] at *; omega

theorem totalOrder_ge : TotalOrder fun a b : ℕ => decide (b ≤ a) where
  trans a b c h1 h2 := by simp only [decide_eq_true_eq] at *; omega
  total a b := by simp only [Bool.or_eq_true, decide_eq_true_eq]; omega
  antisymm a b h1 h2 := by simp only [decide_eq_true_eq] at *; omega

variable {n : ℕ} {l m kept : List α} {a : α}

theorem pairwise_nearest (ho : TotalOrder le) (n : ℕ) (l : List α) : (nearest le n l).Pairwise fun a b => le a b = true :=
  (List.pairwise_mergeSort ho.trans ho.total l).sublist (List.take_sublist _ _)

/-- **Sorting and cutting keeps the nearest.** -/
theorem closest_nearest (ho : TotalOrder le) (n : ℕ) (h : l.Nodup) : Closest le n l (nearest le n l) where
  sub _ hx := List.mem_mergeSort.mp (List.mem_of_mem_take hx)
  nodup := ((List.mergeSort_perm l le).nodup_iff.mpr h).sublist (List.take_sublist _ _)
  length := by rw [nearest, List.length_take, List.length_mergeSort]
  near x hx hout y hy := by
    have hsorted := List.pairwise_mergeSort ho.trans ho.total l
    rw [← List.take_append_drop n (l.mergeSort le)] at hsorted
    have hin : x ∈ (l.mergeSort le).take n ++ (l.mergeSort le).drop n := by
      rw [List.take_append_drop]
      exact List.mem_mergeSort.mpr hx
    have hdrop : x ∈ (l.mergeSort le).drop n := (List.mem_append.mp hin).resolve_left hout
    exact (List.pairwise_append.mp hsorted).2.2 y hy x hdrop

/-- The last of an ascending list are nearest from above. -/
theorem Asc.closest_drop {β : Type*} {key : β → ℕ} {l : List β} (h : Asc key l) (n : ℕ) :
    Closest (fun a b => decide (b ≤ a)) n (l.map key) ((l.drop (l.length - n)).map key) where
  sub := List.map_subset _ (List.drop_subset _ _)
  nodup := (h.sublist (List.drop_sublist _ _)).nodup_keys
  length := by
    rw [List.length_map, List.length_drop, List.length_map]
    omega
  near := by
    intro x hx hout y hy
    obtain ⟨a, ha, rfl⟩ := List.mem_map.mp hx
    obtain ⟨b, hb, rfl⟩ := List.mem_map.mp hy
    rw [← List.take_append_drop (l.length - n) l] at ha
    have htake := (List.mem_append.mp ha).resolve_right fun hd => hout (List.mem_map_of_mem hd)
    exact decide_eq_true (h.take_lt_drop _ a htake b hb).le

/-- The first of an ascending list are nearest from below. -/
theorem Asc.closest_take {β : Type*} {key : β → ℕ} {l : List β} (h : Asc key l) (n : ℕ) :
    Closest (fun a b => decide (a ≤ b)) n (l.map key) ((l.take n).map key) where
  sub := List.map_subset _ (List.take_subset _ _)
  nodup := (h.sublist (List.take_sublist _ _)).nodup_keys
  length := by
    rw [List.length_map, List.length_take, List.length_map]
  near := by
    intro x hx hout y hy
    obtain ⟨a, ha, rfl⟩ := List.mem_map.mp hx
    obtain ⟨b, hb, rfl⟩ := List.mem_map.mp hy
    rw [← List.take_append_drop n l] at ha
    have hdrop := (List.mem_append.mp ha).resolve_left fun ht => hout (List.mem_map_of_mem ht)
    exact decide_eq_true (h.take_lt_drop _ b hb a hdrop).le

/-- A list that drops an element keeps `n`. -/
theorem Closest.full (h : Closest le n l kept) {x : α} (hx : x ∈ l) (hout : x ∉ kept) :
    kept.length = n := by
  have hlt : kept.length < l.length := by
    have hsub : x :: kept ⊆ l := List.cons_subset.mpr ⟨hx, h.sub⟩
    exact (List.subperm_of_subset (List.nodup_cons.mpr ⟨hout, h.nodup⟩) hsub).length_le
  have := h.length
  omega

/-- An element no farther than one kept is kept. -/
theorem Closest.of_le (ho : TotalOrder le) (h : Closest le n l kept) {x y : α} (hx : x ∈ l) (hy : y ∈ kept)
    (hle : le x y = true) : x ∈ kept := by
  by_contra hout
  obtain rfl := ho.antisymm _ _ hle (h.near x hx hout y hy)
  exact hout hy

/-- What a cut of the first list drops is not among the nearest of the two. -/
theorem Closest.of_merged (ho : TotalOrder le) (h : Closest le n l kept) {merged : List α}
    (hm : Closest le n (kept ++ m) merged) {x t : α} (hx : x ∈ l) (ht : t ∈ merged) (hle : le x t = true) :
    x ∈ kept := by
  by_contra hout
  -- all `n` kept of the first list are as near as `x`, so they are the merged ones
  have hsub : kept ⊆ merged := fun y hy =>
    hm.of_le ho (List.mem_append_left _ hy) ht (ho.trans _ _ _ (h.near x hx hout y hy) hle)
  have hlen : merged.length ≤ kept.length := by
    rw [h.full hx hout, hm.length]
    exact min_le_left _ _
  have hsame : merged ⊆ kept :=
    ((List.subperm_of_subset h.nodup hsub).perm_of_length_le hlen).symm.subset
  exact hout (h.of_le ho hx (hsame ht) hle)

theorem mem_nearest {x : α} (h : x ∈ nearest le n l) : x ∈ l := List.mem_mergeSort.mp (List.mem_of_mem_take h)

/-- The edge is an element kept, or where there is none. -/
theorem edge_cases (a : α) (kept : List α) : edge a kept = a ∨ edge a kept ∈ kept := by
  unfold edge
  cases h : kept.getLast? with
  | none => exact .inl rfl
  | some t => exact .inr (List.mem_of_getLast? h)

/-- **The nearest of both lists are those within the edge.** -/
theorem Closest.within_edge (ho : TotalOrder le) (h : Closest le n l kept) (hnodup : (l ++ m).Nodup)
    (ha : ∀ x ∈ l ++ m, le x a = false) :
    ((l ++ m).filter fun x => le x (edge a (nearest le n (kept ++ m)))).length = min n (l ++ m).length := by
  obtain ⟨-, hmn, hdisjoint⟩ := List.nodup_append.mp hnodup
  have hkept : (kept ++ m).Nodup :=
    List.nodup_append.mpr ⟨h.nodup, hmn, fun x hx y hy => hdisjoint x (h.sub hx) y hy⟩
  have hmerged := closest_nearest ho n hkept
  have hlen : (nearest le n (kept ++ m)).length = min n (l ++ m).length := by
    rw [hmerged.length, List.length_append, List.length_append, h.length]
    omega
  rw [← hlen]
  unfold edge
  cases hlast : (nearest le n (kept ++ m)).getLast? with
  | none =>
    have hnil : (l ++ m).filter (fun x => le x a) = [] :=
      List.filter_eq_nil_iff.mpr fun x hx => by simp [ha x hx]
    rw [List.getLast?_eq_none_iff.mp hlast, Option.getD_none, hnil]
  | some t =>
    have ht := List.mem_of_getLast? hlast
    have hbound : ∀ x ∈ nearest le n (kept ++ m), le x t = true := by
      intro x hx
      obtain ⟨init, hinit⟩ := List.getLast?_eq_some_iff.mp hlast
      have hsorted := pairwise_nearest ho n (kept ++ m)
      rw [hinit] at hsorted hx
      rcases List.mem_append.mp hx with hx | hx
      · exact (List.pairwise_append.mp hsorted).2.2 x hx t List.mem_cons_self
      · rw [List.mem_singleton.mp hx]
        simpa using ho.total t t
    refine ((List.perm_ext_iff_of_nodup (hnodup.filter _) hmerged.nodup).mpr fun x => ?_).length_eq
    rw [List.mem_filter, List.mem_append, Option.getD_some]
    constructor
    · rintro ⟨hx | hx, hle⟩
      · have hin := h.of_merged ho hmerged hx ht hle
        exact hmerged.of_le ho (List.mem_append_left _ hin) ht hle
      · exact hmerged.of_le ho (List.mem_append_right _ hx) ht hle
    · intro hx
      exact ⟨(List.mem_append.mp (hmerged.sub hx)).imp_left fun hk => h.sub hk, hbound x hx⟩

end Lib
end Logmon
