/-
# Delimited pieces of a stream

A stream is cut after each delimiter. `cutAfter` gives the first piece of a
whole stream; `readUntil` is what a reader does that sees only the part that
has arrived and takes at most `room` of it: it stops behind a delimiter or with
its room used up, and else has taken all there is.

Key definitions: `cutAfter`, `readUntil`, `readChunks`.
Key theorems: `cutAfter_append`, `readUntil_stopped`, `readUntil_exhausted`,
`readChunks_eq`.
-/
import Mathlib.Data.List.Basic
import Mathlib.Tactic.Linarith

namespace Logmon
namespace Lib

variable {α : Type} [DecidableEq α]

/-- The stream up to and with its first delimiter, and the rest. -/
def cutAfter (d : α) : List α → List α × List α
  | [] => ([], [])
  | a :: l => if a = d then ([a], l) else (a :: (cutAfter d l).1, (cutAfter d l).2)

/-- Read from what has arrived, up to and with the first delimiter and at most
`room`: what was read, what is left, and whether the read is over whatever
arrives next. -/
def readUntil (d : α) : ℕ → List α → List α × List α × Bool
  | 0, arrived => ([], arrived, true)
  | _ + 1, [] => ([], [], false)
  | room + 1, a :: arrived =>
    if a = d then ([a], arrived, true)
    else (a :: (readUntil d room arrived).1, (readUntil d room arrived).2)

variable {d : α}

theorem cutAfter_eq (d : α) : ∀ l : List α, (cutAfter d l).1 ++ (cutAfter d l).2 = l
  | [] => rfl
  | a :: l => by
    unfold cutAfter
    split
    · rfl
    · rw [List.cons_append, cutAfter_eq d l]

theorem cutAfter_ne_nil {l : List α} (h : l ≠ []) : (cutAfter d l).1 ≠ [] := by
  cases l with
  | nil => exact absurd rfl h
  | cons a l =>
    unfold cutAfter
    split <;> simp

/-- What follows the first piece is shorter than the stream. -/
theorem length_cutAfter_lt {l : List α} (h : l ≠ []) : (cutAfter d l).2.length < l.length := by
  have hlen := congrArg List.length (cutAfter_eq d l)
  have hpos := List.length_pos_of_ne_nil (@cutAfter_ne_nil α _ d l h)
  rw [List.length_append] at hlen
  omega

/-- A stream with no delimiter is one piece. -/
theorem cutAfter_of_not_mem : ∀ {l : List α}, d ∉ l → cutAfter d l = (l, [])
  | [], _ => rfl
  | a :: l, h => by
    unfold cutAfter
    rw [if_neg fun ha => h (by rw [ha]; exact List.mem_cons_self),
      cutAfter_of_not_mem fun hd => h (List.mem_cons_of_mem _ hd)]

theorem cutAfter_append : ∀ {p : List α}, d ∉ p → ∀ l, cutAfter d (p ++ l) = (p ++ (cutAfter d l).1, (cutAfter d l).2)
  | [], _, _ => rfl
  | a :: p, h, l => by
    rw [List.cons_append, cutAfter, if_neg fun ha => h (by rw [ha]; exact List.mem_cons_self),
      cutAfter_append (fun hd => h (List.mem_cons_of_mem _ hd)) l, List.cons_append]

theorem readUntil_eq (d : α) : ∀ (room : ℕ) (l : List α), (readUntil d room l).1 ++ (readUntil d room l).2.1 = l
  | 0, _ => rfl
  | _ + 1, [] => rfl
  | room + 1, a :: l => by
    unfold readUntil
    split
    · rfl
    · rw [List.cons_append, readUntil_eq d room l]

/-- A read that is not over has taken all there was, and room is left. -/
theorem readUntil_exhausted : ∀ {room : ℕ} {l : List α}, (readUntil d room l).2.2 = false →
    readUntil d room l = (l, [], false) ∧ d ∉ l ∧ l.length < room
  | 0, _, h => absurd h (by simp [readUntil])
  | _ + 1, [], _ => ⟨rfl, List.not_mem_nil, Nat.succ_pos _⟩
  | room + 1, a :: l, h => by
    unfold readUntil at h ⊢
    by_cases ha : a = d
    · simp [ha] at h
    · rw [if_neg ha] at h ⊢
      obtain ⟨heq, hd, hlen⟩ := readUntil_exhausted h
      rw [heq]
      refine ⟨rfl, fun hmem => ?_, Nat.succ_lt_succ hlen⟩
      rcases List.mem_cons.mp hmem with hmem | hmem
      · exact ha hmem.symm
      · exact hd hmem

/-- A read that is over stands behind the first delimiter, or has used its
room up before one. -/
theorem readUntil_stopped : ∀ {room : ℕ} {l : List α}, (readUntil d room l).2.2 = true →
    (∀ more, cutAfter d (l ++ more) = ((readUntil d room l).1, (readUntil d room l).2.1 ++ more)) ∨
      d ∉ (readUntil d room l).1 ∧ (readUntil d room l).1.length = room
  | 0, _, _ => .inr ⟨List.not_mem_nil, rfl⟩
  | _ + 1, [], h => absurd h (by simp [readUntil])
  | room + 1, a :: l, h => by
    unfold readUntil at h ⊢
    by_cases ha : a = d
    · left
      intro more
      rw [if_pos ha, List.cons_append, cutAfter, if_pos ha]
    · rw [if_neg ha] at h ⊢
      rcases readUntil_stopped h with hcut | ⟨hd, hlen⟩
      · left
        intro more
        rw [List.cons_append, cutAfter, if_neg ha, hcut more]
      · right
        refine ⟨fun hmem => ?_, by rw [List.length_cons, hlen]⟩
        rcases List.mem_cons.mp hmem with hmem | hmem
        · exact ha hmem.symm
        · exact hd hmem

/-! ### A stream in chunks -/

/-- Read from a stream that comes in chunks, each what one fill of the reader's
buffer brought: what was read, the chunks that are left, and whether the read
stopped before the end of the stream. -/
def readChunks (d : α) : ℕ → List (List α) → List α × List (List α) × Bool
  | _, [] => ([], [], false)
  | room, c :: cs =>
    if (readUntil d room c).2.2 then ((readUntil d room c).1, (readUntil d room c).2.1 :: cs, true)
    else
      ((readUntil d room c).1 ++ (readChunks d (room - c.length) cs).1, (readChunks d (room - c.length) cs).2)

theorem readUntil_append : ∀ (room : ℕ) (c l : List α), readUntil d room (c ++ l) =
    if (readUntil d room c).2.2 then ((readUntil d room c).1, (readUntil d room c).2.1 ++ l, true)
    else (c ++ (readUntil d (room - c.length) l).1, (readUntil d (room - c.length) l).2)
  | 0, c, l => by
    rw [readUntil, readUntil, if_pos rfl]
  | room + 1, [], l => by
    rw [List.nil_append, readUntil, if_neg (by simp)]
    rfl
  | room + 1, a :: c, l => by
    rw [List.cons_append, readUntil, readUntil]
    by_cases ha : a = d
    · rw [if_pos ha, if_pos ha]
      rfl
    · rw [if_neg ha, if_neg ha, readUntil_append room c l, List.length_cons, Nat.add_sub_add_right]
      dsimp only
      split <;> rfl

/-- **The chunks of a stream do not matter to a read.** -/
theorem readChunks_eq : ∀ {room : ℕ} (_ : 0 < room) (cs : List (List α)),
    (readChunks d room cs).1 = (readUntil d room cs.flatten).1 ∧
      (readChunks d room cs).2.1.flatten = (readUntil d room cs.flatten).2.1 ∧
      (readChunks d room cs).2.2 = (readUntil d room cs.flatten).2.2
  | room + 1, _, [] => ⟨rfl, rfl, rfl⟩
  | room, hroom, c :: cs => by
    rw [readChunks, List.flatten_cons, readUntil_append]
    by_cases hover : (readUntil d room c).2.2 = true
    · rw [if_pos hover, if_pos hover]
      exact ⟨rfl, List.flatten_cons, rfl⟩
    · obtain ⟨heq, -, hlt⟩ := readUntil_exhausted (eq_false_of_ne_true hover)
      obtain ⟨hread, hleft, hstop⟩ := readChunks_eq (Nat.sub_pos_of_lt hlt) cs
      rw [if_neg hover, if_neg hover, heq]
      exact ⟨by rw [hread], hleft, hstop⟩

/-- How a read ends: behind a delimiter, with its room used up before one, or
with the stream. -/
inductive ReadEnd (d : α) (room : ℕ) (l : List α) : List α → List α → Bool → Prop
  | delimiter (p rest : List α) (clean : d ∉ p) (eq : l = p ++ d :: rest) (fits : p.length < room) :
    ReadEnd d room l (p ++ [d]) rest true
  | full (p rest : List α) (clean : d ∉ p) (eq : l = p ++ rest) (len : p.length = room) : ReadEnd d room l p rest true
  | ended (clean : d ∉ l) (fits : l.length < room) : ReadEnd d room l l [] false

theorem readEnd_readUntil (d : α) : ∀ (room : ℕ) (l : List α),
    ReadEnd d room l (readUntil d room l).1 (readUntil d room l).2.1 (readUntil d room l).2.2
  | 0, l => .full [] l List.not_mem_nil rfl rfl
  | _ + 1, [] => .ended List.not_mem_nil (Nat.succ_pos _)
  | room + 1, a :: l => by
    unfold readUntil
    by_cases ha : a = d
    · subst ha
      rw [if_pos rfl]
      exact .delimiter [] l List.not_mem_nil rfl (Nat.succ_pos _)
    · rw [if_neg ha]
      have hclean : ∀ {p : List α}, d ∉ p → d ∉ a :: p := fun hp hmem =>
        (List.mem_cons.mp hmem).elim (fun h => ha h.symm) hp
      have ih := readEnd_readUntil d room l
      generalize readUntil d room l = r at ih
      obtain ⟨read, left, stopped⟩ := r
      dsimp only at ih ⊢
      cases ih with
      | delimiter p rest clean eq fits =>
        exact .delimiter (a :: p) left (hclean clean) (by rw [eq]; rfl) (Nat.succ_lt_succ fits)
      | full p rest clean eq len => exact .full (a :: read) left (hclean clean) (by rw [eq]; rfl) (by rw [List.length_cons, len])
      | ended clean fits => exact .ended (hclean clean) (Nat.succ_lt_succ fits)

/-- How a read from chunks ends, by the stream they make. -/
theorem readEnd_readChunks {room : ℕ} (hroom : 0 < room) (cs : List (List α)) :
    ReadEnd d room cs.flatten (readChunks d room cs).1 (readChunks d room cs).2.1.flatten (readChunks d room cs).2.2 := by
  obtain ⟨hread, hleft, hstop⟩ := @readChunks_eq α _ d room hroom cs
  rw [hread, hleft, hstop]
  exact readEnd_readUntil d room cs.flatten

end Lib
end Logmon
