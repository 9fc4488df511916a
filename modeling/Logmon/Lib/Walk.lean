/-
# Walks along links

Every node leads to one other, or is a root, or leads nowhere that is known.
A walk follows the links from a node until it meets a root, a missing link, a
node it has been at, or its limit. Whatever the links are, circles included,
it ends, visits no node twice, and ends complete exactly when a root stands
within its limit (`walk_spec`).

Key definitions: `Link`, `walkRound`, `walk`, `climb`, `Walked`.
Key theorems: `climb_of_walked`, `walk_spec`.
-/
import Logmon.Lib.Loop
import Mathlib.Data.List.Chain
import Mathlib.Data.List.Nodup

namespace Logmon
namespace Lib

/-- Where a node leads. -/
inductive Link (α : Type)
  | root
  | missing
  | next (a : α)

variable {α : Type} (link : α → Link α)

/-- The node `n` links on. -/
def climb : ℕ → α → Option α
  | 0, a => some a
  | n + 1, a =>
    match link a with
    | .next b => climb n b
    | _ => none

theorem climb_add (m n : ℕ) : ∀ a : α, climb link (m + n) a = (climb link m a).bind (climb link n) := by
  induction m with
  | zero => exact fun a => by rw [Nat.zero_add]; rfl
  | succ m ih =>
    intro a
    rw [Nat.succ_add, climb, climb]
    cases link a with
    | next b => exact ih b
    | root => rfl
    | missing => rfl

/-- A walk under way: where it is, and the nodes it has been at, in order. -/
structure Walk (α : Type) where
  cur : α
  visited : List α

section
variable [DecidableEq α] (limit : ℕ)

/-- One step of a walk. It answers the nodes it has been at, and whether it
ended short of a root. -/
def walkRound (w : Walk α) : Except Unit (Round (Walk α) (List α × Bool)) :=
  match link w.cur with
  | .root => .ok (.done (w.visited, false))
  | .missing => .ok (.done (w.visited, true))
  | .next p =>
    if p ∈ w.visited ∨ limit ≤ w.visited.length then .ok (.done (w.visited, true))
    else .ok (.again ⟨p, w.visited ++ [p]⟩)

/-- A walk of at most `fuel` steps. -/
def walk (fuel : ℕ) (start : α) : Except Unit (List α × Bool) :=
  loop () (walkRound link limit) fuel ⟨start, [start]⟩

end

/-- The nodes of a walk: from `start` on, each linked to the next, none twice. -/
structure Walked (limit : ℕ) (start : α) (visited : List α) : Prop where
  head : visited.head? = some start
  chain : visited.IsChain fun a b => link a = .next b
  nodup : visited.Nodup
  length_le : visited.length ≤ limit

variable {link} {limit : ℕ} {start : α} {visited : List α}

theorem Walked.ne_nil (h : Walked link limit start visited) : visited ≠ [] := by
  rintro rfl
  have := h.head
  simp at this

/-- The nodes of a walk are the climbs from its start. -/
theorem climb_of_walked (h : Walked link limit start visited) :
    ∀ {i : ℕ} {a : α}, visited[i]? = some a → climb link i start = some a := by
  intro i
  induction i with
  | zero =>
    intro a ha
    rw [← List.head?_eq_getElem?, h.head] at ha
    exact ha
  | succ i ih =>
    intro a ha
    obtain ⟨hi, hget⟩ := List.getElem?_eq_some_iff.mp ha
    have hlink : link visited[i] = .next a := by
      rw [← hget]
      exact List.isChain_iff_getElem.mp h.chain i hi
    rw [climb_add, ih (List.getElem?_eq_getElem (Nat.lt_of_succ_lt hi)), Option.bind_some, climb, hlink]
    rfl

/-- The answer of a walk from `start`. -/
def WalkAnswer (link : α → Link α) (limit : ℕ) (start : α) (visited : List α) (short : Bool) : Prop :=
  Walked link limit start visited ∧ ∃ last, visited.getLast? = some last ∧ (short = false ↔ link last = .root) ∧
    (short = true → ∀ n r, climb link n start = some r → link r = .root → limit ≤ n)

/-- A root is not among the nodes a walk went on from. -/
theorem not_root_of_lt (h : Walked link limit start visited) {n : ℕ} {r : α} (hn : n + 1 < visited.length)
    (hr : climb link n start = some r) : link r ≠ .root := by
  have hget := climb_of_walked h (List.getElem?_eq_getElem (Nat.lt_of_succ_lt hn))
  obtain rfl : visited[n] = r := Option.some.inj (hget.symm.trans hr)
  rw [List.isChain_iff_getElem.mp h.chain n hn]
  simp

/-- From a circle no climb gets out. -/
theorem climb_mem_of_closed (hclosed : ∀ a ∈ visited, ∃ b ∈ visited, link a = .next b) :
    ∀ {n : ℕ} {a r : α}, a ∈ visited → climb link n a = some r → r ∈ visited
  | 0, a, r, ha, hr => by
    obtain rfl : a = r := Option.some.inj hr
    exact ha
  | n + 1, a, r, ha, hr => by
    obtain ⟨b, hb, hlink⟩ := hclosed a ha
    rw [climb, hlink] at hr
    exact climb_mem_of_closed hclosed hb hr

/-- **What a walk comes to**: with fuel for its limit it ends, and its answer is
complete exactly where a root stands within the limit. -/
theorem walk_answers [DecidableEq α] (hlimit : 0 < limit) {fuel : ℕ} (hfuel : limit ≤ fuel) :
    ∃ visited short, walk link limit fuel start = .ok (visited, short) ∧ WalkAnswer link limit start visited short := by
  let I : Walk α → Prop := fun w => Walked link limit start w.visited ∧ w.visited.getLast? = some w.cur
  let Post : Except Unit (List α × Bool) → Prop := fun r =>
    ∃ visited short, r = .ok (visited, short) ∧ WalkAnswer link limit start visited short
  have hround : ∀ w, I w → RoundPost I (fun w => limit - w.visited.length) Post w (walkRound link limit w) := by
    intro w ⟨hwalked, hlast⟩
    have hlen : w.visited.length ≠ 0 := fun h => hwalked.ne_nil (List.length_eq_zero_iff.mp h)
    have hcur : climb link (w.visited.length - 1) start = some w.cur :=
      climb_of_walked hwalked (by rw [← List.getLast?_eq_getElem?, hlast])
    -- before its last node the walk has met no root
    have hbefore : ∀ n r, climb link n start = some r → link r = .root → link w.cur ≠ .root → w.visited.length ≤ n := by
      intro n r hr hroot hcurRoot
      by_contra hn
      by_cases hend : n = w.visited.length - 1
      · rw [hend, hcur] at hr
        exact hcurRoot (Option.some.inj hr ▸ hroot)
      · exact not_root_of_lt hwalked (by omega) hr hroot
    unfold walkRound
    cases hlink : link w.cur with
    | root => exact ⟨_, _, rfl, hwalked, w.cur, hlast, iff_of_true rfl hlink, by simp⟩
    | missing =>
      refine ⟨_, _, rfl, hwalked, w.cur, hlast, iff_of_false (by simp) (by simp [hlink]), fun _ n r hr hroot => ?_⟩
      have hn := hbefore n r hr hroot (by simp [hlink])
      have hsplit : n = (w.visited.length - 1) + (n - w.visited.length + 1) := by omega
      rw [hsplit, climb_add, hcur, Option.bind_some, climb, hlink] at hr
      simp at hr
    | next p =>
      dsimp only
      split
      · rename_i hstop
        refine ⟨_, _, rfl, hwalked, w.cur, hlast, iff_of_false (by simp) (by simp [hlink]), fun _ n r hr hroot => ?_⟩
        have hn := hbefore n r hr hroot (by simp [hlink])
        rcases hstop with hmem | hfull
        · have hclosed : ∀ a ∈ w.visited, ∃ b ∈ w.visited, link a = .next b := by
            intro a ha
            obtain ⟨i, hi, rfl⟩ := List.mem_iff_getElem.mp ha
            by_cases hend : i + 1 < w.visited.length
            · exact ⟨_, List.getElem_mem hend, List.isChain_iff_getElem.mp hwalked.chain i hend⟩
            · have hi' : i = w.visited.length - 1 := by omega
              have hget : w.visited[i] = w.cur := by
                rw [List.getLast?_eq_getElem?, ← hi', List.getElem?_eq_getElem hi] at hlast
                exact Option.some.inj hlast
              exact ⟨p, hmem, by rw [hget, hlink]⟩
          have hstart : start ∈ w.visited := List.mem_of_head? hwalked.head
          obtain ⟨b, -, hb⟩ := hclosed r (climb_mem_of_closed hclosed hstart hr)
          rw [hroot] at hb
          simp at hb
        · omega
      · rename_i hgo
        obtain ⟨hnew, hroom⟩ := not_or.mp hgo
        refine ⟨⟨⟨?_, ?_, ?_, ?_⟩, by simp⟩, ?_⟩
        · rw [List.head?_append_of_ne_nil _ hwalked.ne_nil, hwalked.head]
        · refine List.isChain_append.mpr ⟨hwalked.chain, List.isChain_singleton _, fun a ha b hb => ?_⟩
          rw [hlast] at ha
          obtain rfl : w.cur = a := Option.some.inj ha
          obtain rfl : p = b := by simpa using hb
          exact hlink
        · exact List.Nodup.append hwalked.nodup (List.nodup_singleton p) (by simpa using hnew)
        · rw [List.length_append, List.length_singleton]
          omega
        · show limit - (w.visited ++ [p]).length < limit - w.visited.length
          rw [List.length_append, List.length_singleton]
          omega
  refine loop_post I (fun w => limit - w.visited.length) Post hround ⟨⟨rfl, List.isChain_singleton _, List.nodup_singleton _, hlimit⟩, rfl⟩ ?_
  show limit - [start].length < fuel
  simp only [List.length_singleton]
  omega

/-- **Walks are safe on every graph**: the answer does not depend on the fuel
once that is the limit; the nodes are linked one to the next, none twice and no
more than the limit; and the walk is complete exactly where it ended at a root,
which is where one stands within the limit. -/
theorem walk_spec [DecidableEq α] (link : α → Link α) (start : α) (hlimit : 0 < limit) :
    ∃ visited short, (∀ fuel, limit ≤ fuel → walk link limit fuel start = .ok (visited, short)) ∧
      Walked link limit start visited ∧
      (short = false ↔ ∃ last, visited.getLast? = some last ∧ link last = .root) ∧
      (short = false ↔ ∃ n < limit, ∃ r, climb link n start = some r ∧ link r = .root) := by
  obtain ⟨visited, short, hok, hwalked, last, hlast, hroot, hfar⟩ :=
    @walk_answers α link limit start _ hlimit limit (Nat.le_refl _)
  refine ⟨visited, short, fun fuel hfuel => loop_ok_of_le hfuel hok, hwalked, ?_, ?_⟩
  · rw [hroot]
    exact ⟨fun h => ⟨last, hlast, h⟩, fun ⟨last', hlast', h⟩ => by
      obtain rfl : last = last' := Option.some.inj (hlast.symm.trans hlast')
      exact h⟩
  · constructor
    · intro hshort
      have hlen : visited.length ≠ 0 := fun h => hwalked.ne_nil (List.length_eq_zero_iff.mp h)
      have hle := hwalked.length_le
      exact ⟨visited.length - 1, by omega, last,
        climb_of_walked hwalked (by rw [← List.getLast?_eq_getElem?, hlast]), hroot.mp hshort⟩
    · rintro ⟨n, hn, r, hr, hlink⟩
      by_contra hshort
      have := hfar (by simpa using hshort) n r hr hlink
      omega

end Lib
end Logmon
