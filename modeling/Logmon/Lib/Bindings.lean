/-
# Bindings in key order

An ordered map as the list of its bindings. A key that is bound again keeps its
place and takes the new value; what a lookup finds does not depend on the order
(`lookupKey_insertKey`), so a map filled from a list with distinct keys holds
exactly that list (`lookupKey_bindAll`).

Key definitions: `insertKey`, `lookupKey`, `bindAll`.
Key theorems: `lookupKey_insertKey`, `lookupKey_bindAll`, `bindAll_map`.
-/
import Mathlib.Data.List.Nodup
import Mathlib.Tactic.Linarith

namespace Logmon
namespace Lib

variable {K V W : Type*} [DecidableEq K]

/-- The value bound to `k`. -/
def lookupKey (k : K) : List (K × V) → Option V
  | [] => none
  | p :: m => if k = p.1 then some p.2 else lookupKey k m

variable [LT K] [DecidableLT K]

/-- Bind `k` to `v`. -/
def insertKey (k : K) (v : V) : List (K × V) → List (K × V)
  | [] => [(k, v)]
  | p :: m => if k = p.1 then (k, v) :: m else if k < p.1 then (k, v) :: p :: m else p :: insertKey k v m

/-- Bind each of `l`, in order. -/
def bindAll (m l : List (K × V)) : List (K × V) := l.foldl (fun m p => insertKey p.1 p.2 m) m

theorem lookupKey_insertKey (k k' : K) (v : V) : ∀ m : List (K × V),
    lookupKey k' (insertKey k v m) = if k' = k then some v else lookupKey k' m
  | [] => rfl
  | p :: m => by
    have ih := lookupKey_insertKey k k' v m
    unfold insertKey
    by_cases hk : k' = k
    · subst hk
      rw [if_pos rfl]
      rw [if_pos rfl] at ih
      split_ifs with heq hlt
      · simp [lookupKey]
      · simp [lookupKey]
      · simp [lookupKey, heq, ih]
    · rw [if_neg hk]
      rw [if_neg hk] at ih
      split_ifs with heq hlt
      · simp [lookupKey, hk, ← heq]
      · simp [lookupKey, hk]
      · simp [lookupKey, ih]

theorem lookupKey_bindAll_of_notMem {k : K} : ∀ {l : List (K × V)} (m : List (K × V)), k ∉ l.map Prod.fst →
    lookupKey k (bindAll m l) = lookupKey k m
  | [], _, _ => rfl
  | p :: l, m, h => by
    obtain ⟨hne, hl⟩ := not_or.mp (mt List.mem_cons.mpr h)
    show lookupKey k (bindAll (insertKey p.1 p.2 m) l) = _
    rw [lookupKey_bindAll_of_notMem _ hl, lookupKey_insertKey, if_neg hne]

/-- **A map filled from bindings with distinct keys finds each of them.** -/
theorem lookupKey_bindAll {k : K} {v : V} : ∀ {l : List (K × V)} (m : List (K × V)), (l.map Prod.fst).Nodup →
    (k, v) ∈ l → lookupKey k (bindAll m l) = some v
  | p :: l, m, hnd, h => by
    obtain ⟨hp, hnd⟩ := List.nodup_cons.mp hnd
    show lookupKey k (bindAll (insertKey p.1 p.2 m) l) = _
    rcases List.mem_cons.mp h with rfl | h
    · rw [lookupKey_bindAll_of_notMem _ hp, lookupKey_insertKey, if_pos rfl]
    · exact lookupKey_bindAll _ hnd h

theorem insertKey_map (f : V → W) (k : K) (v : V) : ∀ m : List (K × V),
    (insertKey k v m).map (fun p => (p.1, f p.2)) = insertKey k (f v) (m.map fun p => (p.1, f p.2))
  | [] => rfl
  | p :: m => by
    simp only [insertKey, List.map_cons]
    split_ifs with heq hlt
    · rfl
    · rfl
    · rw [List.map_cons, insertKey_map f k v m]

/-- Values mapped after they are bound, or before. -/
theorem bindAll_map (f : V → W) : ∀ l m : List (K × V),
    (bindAll m l).map (fun p => (p.1, f p.2)) =
      bindAll (m.map fun p => (p.1, f p.2)) (l.map fun p => (p.1, f p.2))
  | [], _ => rfl
  | p :: l, m => by
    show (bindAll (insertKey p.1 p.2 m) l).map _ = bindAll (insertKey p.1 (f p.2) _) (l.map _)
    rw [bindAll_map f l, insertKey_map]

end Lib
end Logmon
