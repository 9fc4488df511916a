/-
# Lists in strictly ascending key order

A list whose elements carry a natural-number key and stand in strictly
ascending key order is determined by its members (`Asc.ext`). This file has
the operations a program does on such lists (the two-way merge, the removal
of repeated keys after a stable sort, the cut at a key) and what each does to
the members and to the order.

Key definitions: `Asc`, `mergeBy`, `dedupByKey`, `sortByKey`, `partitionPoint`.
Key theorems: `Asc.ext`, `asc_mergeBy`, `mem_mergeBy`, `asc_dedup_sort`,
`mem_dedup_sort`, `Asc.take_partitionPoint`, `Asc.drop_partitionPoint`.
-/
import Mathlib.Data.List.Sort
import Mathlib.Tactic.Linarith

namespace Logmon
namespace Lib

variable {α : Type*} (key : α → ℕ)

/-- Strictly ascending by `key`. -/
def Asc (l : List α) : Prop := l.Pairwise fun a b => key a < key b

variable {key}

theorem Asc.nil : Asc key [] := List.Pairwise.nil

theorem asc_cons {a : α} {l : List α} : Asc key (a :: l) ↔ (∀ b ∈ l, key a < key b) ∧ Asc key l :=
  List.pairwise_cons

theorem asc_append {l m : List α} : Asc key (l ++ m) ↔
    Asc key l ∧ Asc key m ∧ ∀ a ∈ l, ∀ b ∈ m, key a < key b :=
  List.pairwise_append

theorem Asc.sublist {l m : List α} (h : Asc key m) (hs : l.Sublist m) : Asc key l :=
  List.Pairwise.sublist hs h

theorem Asc.filter {l : List α} (h : Asc key l) (p : α → Bool) : Asc key (l.filter p) :=
  h.sublist List.filter_sublist

theorem Asc.nodup {l : List α} (h : Asc key l) : l.Nodup :=
  List.Pairwise.imp (fun hab he => absurd (congrArg key he) (Nat.ne_of_lt hab)) h

theorem Asc.nodup_keys {l : List α} (h : Asc key l) : (l.map key).Nodup :=
  List.pairwise_map.mpr (List.Pairwise.imp (fun hab => Nat.ne_of_lt hab) h)

theorem Asc.map_keys {l : List α} (h : Asc key l) : Asc id (l.map key) :=
  List.pairwise_map.mpr h

/-- In an ascending list a key has one holder. -/
theorem Asc.eq_of_key : ∀ {l : List α}, Asc key l → ∀ {a b : α}, a ∈ l → b ∈ l → key a = key b → a = b
  | [], _, _, _, ha, _, _ => absurd ha List.not_mem_nil
  | x :: l, h, a, b, ha, hb, he => by
    obtain ⟨hx, hl⟩ := asc_cons.mp h
    rcases List.mem_cons.mp ha with rfl | ha'
    · rcases List.mem_cons.mp hb with rfl | hb'
      · rfl
      · exact absurd he (Nat.ne_of_lt (hx b hb'))
    · rcases List.mem_cons.mp hb with rfl | hb'
      · exact absurd he.symm (Nat.ne_of_lt (hx a ha'))
      · exact hl.eq_of_key ha' hb' he

variable (key) in
/-- **An ascending list is determined by its members.** -/
theorem Asc.ext {l m : List α} (hl : Asc key l) (hm : Asc key m) (h : ∀ a, a ∈ l ↔ a ∈ m) : l = m := by
  have : Std.Irrefl fun a b : α => key a < key b := ⟨fun _ => Nat.lt_irrefl _⟩
  have : Std.Antisymm fun a b : α => key a < key b :=
    ⟨fun _ _ h1 h2 => absurd h1 (Nat.lt_asymm h2)⟩
  exact List.Pairwise.eq_of_mem_iff hl hm h

/-! ### Merging two ascending runs -/

/-- One step of the merge: `x` against the second run, `rest` what follows `x`
in the first. -/
def mergeInto (key : α → ℕ) (x : α) (rest : List α → List α) : List α → List α
  | [] => x :: rest []
  | y :: ys => if key x < key y then x :: rest (y :: ys) else y :: mergeInto key x rest ys

/-- The two-way merge: the smaller head first, the second run's on a tie. -/
def mergeBy (key : α → ℕ) : List α → List α → List α
  | [] => id
  | x :: xs => mergeInto key x (mergeBy key xs)

@[simp] theorem mergeBy_nil_left (ys : List α) : mergeBy key [] ys = ys := rfl

@[simp] theorem mergeBy_nil_right : ∀ xs : List α, mergeBy key xs [] = xs
  | [] => rfl
  | x :: xs => by simp [mergeBy, mergeInto, mergeBy_nil_right xs]

theorem mergeBy_cons_cons (x y : α) (xs ys : List α) : mergeBy key (x :: xs) (y :: ys) =
    if key x < key y then x :: mergeBy key xs (y :: ys) else y :: mergeBy key (x :: xs) ys := rfl

theorem mergeBy_perm : ∀ xs ys : List α, (mergeBy key xs ys).Perm (xs ++ ys)
  | [], ys => List.Perm.refl _
  | x :: xs, [] => by simp
  | x :: xs, y :: ys => by
    rw [mergeBy_cons_cons]
    split_ifs
    · exact (mergeBy_perm xs (y :: ys)).cons x
    · exact ((mergeBy_perm (x :: xs) ys).cons y).trans List.perm_middle.symm

@[simp] theorem mem_mergeBy {a : α} {xs ys : List α} : a ∈ mergeBy key xs ys ↔ a ∈ xs ∨ a ∈ ys := by
  rw [(mergeBy_perm xs ys).mem_iff, List.mem_append]

@[simp] theorem length_mergeBy (xs ys : List α) :
    (mergeBy key xs ys).length = xs.length + ys.length := by
  rw [(mergeBy_perm xs ys).length_eq, List.length_append]

/-- The merge of two ascending runs with no key in common is ascending. -/
theorem asc_mergeBy : ∀ {xs ys : List α}, Asc key xs → Asc key ys →
    (∀ x ∈ xs, ∀ y ∈ ys, key x ≠ key y) → Asc key (mergeBy key xs ys)
  | [], _, _, hy, _ => hy
  | x :: xs, [], hx, _, _ => by simpa using hx
  | x :: xs, y :: ys, hx, hy, hd => by
    obtain ⟨hx1, hx2⟩ := asc_cons.mp hx
    obtain ⟨hy1, hy2⟩ := asc_cons.mp hy
    have hxy : key x ≠ key y := hd x List.mem_cons_self y List.mem_cons_self
    rw [mergeBy_cons_cons]
    split_ifs with hlt
    · refine asc_cons.mpr ⟨fun b hb => ?_, asc_mergeBy hx2 hy fun a ha => hd a (List.mem_cons_of_mem _ ha)⟩
      rcases mem_mergeBy.mp hb with hb | hb
      · exact hx1 b hb
      · rcases List.mem_cons.mp hb with rfl | hb
        · exact hlt
        · exact hlt.trans (hy1 b hb)
    · refine asc_cons.mpr ⟨fun b hb => ?_,
        asc_mergeBy hx hy2 fun a ha c hc => hd a ha c (List.mem_cons_of_mem _ hc)⟩
      rcases mem_mergeBy.mp hb with hb | hb
      · rcases List.mem_cons.mp hb with rfl | hb
        · omega
        · have := hx1 b hb; omega
      · exact hy1 b hb

/-! ### Sorting a batch and dropping repeated keys -/

/-- The stable sort by `key`. -/
def sortByKey (key : α → ℕ) (l : List α) : List α := l.insertionSort fun a b => key a ≤ key b

/-- `a`, then `l` without the elements that repeat the key before them. -/
def dedupFrom (key : α → ℕ) : α → List α → List α
  | a, [] => [a]
  | a, b :: l => if key b = key a then dedupFrom key a l else a :: dedupFrom key b l

/-- Of each run of equal keys, the first element. -/
def dedupByKey (key : α → ℕ) : List α → List α
  | [] => []
  | a :: l => dedupFrom key a l

theorem pairwise_sortByKey (l : List α) : (sortByKey key l).Pairwise fun a b => key a ≤ key b := by
  have : Std.Total fun a b : α => key a ≤ key b := ⟨fun a b => Nat.le_total _ _⟩
  have : IsTrans α fun a b : α => key a ≤ key b := ⟨fun _ _ _ => Nat.le_trans⟩
  exact List.pairwise_insertionSort _ l

@[simp] theorem mem_sortByKey {a : α} {l : List α} : a ∈ sortByKey key l ↔ a ∈ l :=
  List.mem_insertionSort _

theorem asc_sortByKey_of_nodup {l : List α} (h : (l.map key).Nodup) : Asc key (sortByKey key l) := by
  have hnd : ((sortByKey key l).map key).Nodup :=
    (((List.perm_insertionSort _ l).map key).nodup_iff).mpr h
  have hne : (sortByKey key l).Pairwise fun a b => key a ≠ key b := List.pairwise_map.mp hnd
  exact (pairwise_sortByKey l).imp₂ (fun _ _ hle hne => lt_of_le_of_ne hle hne) hne

/-- Sorting puts an ascending list back in order. -/
theorem sortByKey_of_perm {l m : List α} (hl : Asc key l) (h : m.Perm l) : sortByKey key m = l := by
  have hnd : (m.map key).Nodup := (h.map key).nodup_iff.mpr hl.nodup_keys
  refine (asc_sortByKey_of_nodup hnd).ext key hl fun a => ?_
  rw [mem_sortByKey, h.mem_iff]

theorem mem_of_mem_dedupFrom : ∀ {a x : α} {l : List α}, x ∈ dedupFrom key a l → x = a ∨ x ∈ l
  | a, x, [], h => Or.inl (by simpa [dedupFrom] using h)
  | a, x, b :: l, h => by
    unfold dedupFrom at h
    split_ifs at h
    · rcases mem_of_mem_dedupFrom h with h | h
      · exact Or.inl h
      · exact Or.inr (List.mem_cons_of_mem _ h)
    · rcases List.mem_cons.mp h with h | h
      · exact Or.inl h
      · rcases mem_of_mem_dedupFrom h with rfl | h
        · exact Or.inr List.mem_cons_self
        · exact Or.inr (List.mem_cons_of_mem _ h)

theorem asc_dedupFrom : ∀ {a : α} {l : List α}, (a :: l).Pairwise (fun a b => key a ≤ key b) →
    Asc key (dedupFrom key a l)
  | a, [], _ => by simp [dedupFrom, Asc]
  | a, b :: l, h => by
    obtain ⟨h1, h2⟩ := List.pairwise_cons.mp h
    have hb := h1 b List.mem_cons_self
    unfold dedupFrom
    split_ifs with he
    · exact asc_dedupFrom (List.pairwise_cons.mpr
        ⟨fun c hc => h1 c (List.mem_cons_of_mem _ hc), (List.pairwise_cons.mp h2).2⟩)
    · refine asc_cons.mpr ⟨fun c hc => ?_, asc_dedupFrom h2⟩
      rcases mem_of_mem_dedupFrom hc with rfl | hc
      · omega
      · have := (List.pairwise_cons.mp h2).1 c hc; omega

/-- The sorted batch without repeats is ascending. -/
theorem asc_dedup_sort (l : List α) : Asc key (dedupByKey key (sortByKey key l)) := by
  have h : (sortByKey key l).Pairwise _ := pairwise_sortByKey l
  cases hs : sortByKey key l with
  | nil => exact Asc.nil
  | cons a t => rw [hs] at h; exact asc_dedupFrom h

/-- The first of `l` with its key, or `none` when no element has key `k`. -/
def firstWith (key : α → ℕ) (k : ℕ) (l : List α) : Option α := l.find? fun a => key a = k

theorem find?_orderedInsert (k : ℕ) (a : α) : ∀ l : List α,
    firstWith key k (l.orderedInsert (fun a b => key a ≤ key b) a) =
      if key a = k then some a else firstWith key k l
  | [] => by simp [firstWith, List.find?_cons]; split_ifs <;> simp_all
  | b :: l => by
    have ih := find?_orderedInsert k a l
    unfold firstWith at ih ⊢
    rw [List.orderedInsert_cons]
    split_ifs with h1 h2 h2
    · simp [h2]
    · simp [List.find?_cons, h2]
    · have hb : key b ≠ k := by omega
      rw [List.find?_cons_of_neg (by simpa using hb), ih, if_pos h2]
    · by_cases hb : key b = k
      · simp [hb]
      · rw [List.find?_cons_of_neg (by simpa using hb), ih, if_neg h2,
          List.find?_cons_of_neg (by simpa using hb)]

/-- A stable sort keeps the first element of every key first. -/
theorem firstWith_sortByKey (k : ℕ) : ∀ l : List α, firstWith key k (sortByKey key l) = firstWith key k l
  | [] => rfl
  | a :: l => by
    have ih := firstWith_sortByKey k l
    unfold sortByKey at ih ⊢
    rw [List.insertionSort_cons, find?_orderedInsert, ih]
    unfold firstWith
    by_cases h : key a = k <;> simp [h]

theorem firstWith_dedupFrom (k : ℕ) : ∀ (a : α) (l : List α),
    (a :: l).Pairwise (fun a b => key a ≤ key b) →
      firstWith key k (dedupFrom key a l) = firstWith key k (a :: l)
  | a, [], _ => rfl
  | a, b :: l, h => by
    obtain ⟨h1, h2⟩ := List.pairwise_cons.mp h
    unfold dedupFrom
    split_ifs with he
    · rw [firstWith_dedupFrom k a l (List.pairwise_cons.mpr
        ⟨fun c hc => h1 c (List.mem_cons_of_mem _ hc), (List.pairwise_cons.mp h2).2⟩)]
      unfold firstWith
      by_cases ha : key a = k
      · simp [ha]
      · simp [ha, he]
    · have ih := firstWith_dedupFrom k b l h2
      unfold firstWith at ih ⊢
      by_cases ha : key a = k
      · simp [ha]
      · rw [List.find?_cons_of_neg (by simpa using ha), List.find?_cons_of_neg (by simpa using ha), ih]

/-- Of a batch, sorting and dropping repeats keeps the first element of each
key. -/
theorem mem_dedup_sort {a : α} {l : List α} :
    a ∈ dedupByKey key (sortByKey key l) ↔ firstWith key (key a) l = some a := by
  have hasc : Asc key _ := asc_dedup_sort l
  have hf : firstWith key (key a) (dedupByKey key (sortByKey key l)) = firstWith key (key a) l := by
    rw [← firstWith_sortByKey (key a) l]
    have h : (sortByKey key l).Pairwise _ := pairwise_sortByKey l
    cases hs : sortByKey key l with
    | nil => rfl
    | cons b t => rw [hs] at h; exact firstWith_dedupFrom _ b t h
  constructor
  · intro ha
    rw [← hf]
    cases hfind : firstWith key (key a) (dedupByKey key (sortByKey key l)) with
    | none => exact absurd (decide_eq_true rfl) (List.find?_eq_none.mp hfind a ha)
    | some b =>
      have hb := List.mem_of_find?_eq_some hfind
      have hk : key b = key a := by simpa using List.find?_some hfind
      rw [hasc.eq_of_key hb ha hk]
  · intro h
    rw [← hf] at h
    exact List.mem_of_find?_eq_some h

/-! ### Cutting an ascending list at a key -/

/-- Where the elements satisfying `p` end, when they come first. -/
def partitionPoint (p : α → Bool) (l : List α) : ℕ := l.findIdx fun a => !p a

theorem take_partitionPoint_eq (p : α → Bool) : ∀ l : List α, l.take (partitionPoint p l) = l.takeWhile p
  | [] => rfl
  | a :: l => by
    have ih := take_partitionPoint_eq p l
    unfold partitionPoint at ih ⊢
    rw [List.findIdx_cons]
    cases h : p a <;> simp [h, ih]

theorem drop_partitionPoint_eq (p : α → Bool) : ∀ l : List α, l.drop (partitionPoint p l) = l.dropWhile p
  | [] => rfl
  | a :: l => by
    have ih := drop_partitionPoint_eq p l
    unfold partitionPoint at ih ⊢
    rw [List.findIdx_cons]
    cases h : p a <;> simp [h, ih]

/-- Below the cut: the elements with a key under `k`. -/
theorem Asc.take_partitionPoint {l : List α} (h : Asc key l) (k : ℕ) :
    l.take (partitionPoint (fun a => decide (key a < k)) l) = l.filter fun a => decide (key a < k) := by
  rw [take_partitionPoint_eq]
  induction l with
  | nil => rfl
  | cons a l ih =>
    obtain ⟨h1, h2⟩ := asc_cons.mp h
    by_cases hk : key a < k
    · simp [hk, ih h2]
    · simp only [hk, decide_false, Bool.false_eq_true, not_false_eq_true, List.takeWhile_cons_of_neg,
        List.filter_cons_of_neg]
      symm
      rw [List.filter_eq_nil_iff]
      intro b hb
      have := h1 b hb
      simp only [decide_eq_true_eq]
      omega

/-- Above the cut: the elements with a key of at least `k`. -/
theorem Asc.drop_partitionPoint {l : List α} (h : Asc key l) (k : ℕ) :
    l.drop (partitionPoint (fun a => decide (key a < k)) l) = l.filter fun a => decide (k ≤ key a) := by
  rw [drop_partitionPoint_eq]
  induction l with
  | nil => rfl
  | cons a l ih =>
    obtain ⟨h1, h2⟩ := asc_cons.mp h
    by_cases hk : key a < k
    · simp [hk, ih h2]
    · have hall : l.filter (fun a => decide (k ≤ key a)) = l := by
        rw [List.filter_eq_self]
        intro b hb
        have := h1 b hb
        simp only [decide_eq_true_eq]
        omega
      have hk' : k ≤ key a := by omega
      simp [hk', hall]

/-- In an ascending list, the elements before a position are below those
after it. -/
theorem Asc.take_lt_drop {l : List α} (h : Asc key l) (n : ℕ) :
    ∀ a ∈ l.take n, ∀ b ∈ l.drop n, key a < key b :=
  (asc_append.mp (by rw [List.take_append_drop]; exact h : Asc key (l.take n ++ l.drop n))).2.2

/-- The elements from the cut at `lo` to the cut above `hi`. -/
def between (key : α → ℕ) (lo hi : ℕ) (l : List α) : List α :=
  let start := partitionPoint (fun a => decide (key a < lo)) l
  let stop := partitionPoint (fun a => decide (key a ≤ hi)) l
  (l.take (max stop start)).drop start

theorem between_sublist (lo hi : ℕ) (l : List α) : (between key lo hi l).Sublist l :=
  (List.drop_sublist _ _).trans (List.take_sublist _ _)

/-- Between two cuts: the elements with a key in the range. -/
theorem Asc.mem_between {l : List α} (h : Asc key l) {lo hi : ℕ} {a : α} :
    a ∈ between key lo hi l ↔ a ∈ l ∧ lo ≤ key a ∧ key a ≤ hi := by
  have hle : (fun a => decide (key a ≤ hi)) = fun a => decide (key a < hi + 1) := by
    funext a
    simp [Nat.lt_succ_iff]
  have hstart : a ∈ l.take (partitionPoint (fun a => decide (key a < lo)) l) ↔ a ∈ l ∧ key a < lo := by
    rw [h.take_partitionPoint]
    simp
  have hstop : a ∈ l.take (partitionPoint (fun a => decide (key a ≤ hi)) l) ↔ a ∈ l ∧ key a ≤ hi := by
    rw [hle, h.take_partitionPoint]
    simp [Nat.lt_succ_iff]
  unfold between
  simp only
  set s := partitionPoint (fun a => decide (key a < lo)) l
  set t := partitionPoint (fun a => decide (key a ≤ hi)) l
  -- what is before the first cut is cut off, and nothing else is
  have hsplit : l.take (max t s) = l.take s ++ (l.take (max t s)).drop s := by
    conv_lhs => rw [← List.take_append_drop s (l.take (max t s))]
    rw [List.take_take, min_eq_left (le_max_right t s)]
  have hnodup : (l.take s ++ (l.take (max t s)).drop s).Nodup := by
    rw [← hsplit]
    exact (h.sublist (List.take_sublist _ _)).nodup
  have hmax : a ∈ l.take (max t s) ↔ a ∈ l.take t ∨ a ∈ l.take s := by
    rcases le_total s t with hst | hst
    · rw [max_eq_left hst]
      exact ⟨Or.inl, fun hor => hor.elim id fun hm => (List.take_prefix_take_left hst).subset hm⟩
    · rw [max_eq_right hst]
      exact ⟨Or.inr, fun hor => hor.elim (fun hm => (List.take_prefix_take_left hst).subset hm) id⟩
  constructor
  · intro hm
    have hin : a ∈ l.take (max t s) := List.mem_of_mem_drop hm
    have hout : a ∉ l.take s := fun hs => (List.disjoint_of_nodup_append hnodup) hs hm
    have hlo : ¬ (a ∈ l ∧ key a < lo) := fun hc => hout (hstart.mpr hc)
    rcases hmax.mp hin with ht | hs
    · obtain ⟨hl, hhi⟩ := hstop.mp ht
      exact ⟨hl, by by_contra hc; exact hlo ⟨hl, by omega⟩, hhi⟩
    · exact absurd hs hout
  · rintro ⟨hl, hlo, hhi⟩
    have hin : a ∈ l.take s ++ (l.take (max t s)).drop s := by
      rw [← hsplit]
      exact hmax.mpr (Or.inl (hstop.mpr ⟨hl, hhi⟩))
    rcases List.mem_append.mp hin with hs | hm
    · have := (hstart.mp hs).2
      omega
    · exact hm

end Lib
end Logmon
