/-
# GELF over TCP

`gelf/tcp.rs`: one connection's messages, each ended by a NUL. A read takes at
most one byte more than a message may have; a message that fills it is
counted, skipped to its NUL in bounded pieces, and never parsed.

The connection hands over the segments between the NULs, whatever chunks the
stream comes in (`gelf_tcp_framing`).

Key definitions: `Inbound`, `skipPastNul`, `serveConnection`, `messagesOf`,
`oversizeOf`.
Key theorems: `skipped_skipPastNul`, `gelf_tcp_framing`.
-/
import Logmon.Lib.Lines
import Logmon.Lib.Loop
import Logmon.Lib.Word

namespace Logmon

open Lib

/-! ### The reader -/

def nul : UInt8 := 0

/-- `MAX_GELF_TCP_MESSAGE_BYTES`, the limit of every listener, a message's NUL
included. -/
def maxGelfTcpMessageBytes : ℕ := 64 * 1024

/-- `CHUNK`: what a skip reads at once. -/
def skipChunk : ℕ := 8 * 1024

/-- What arrives on a connection: chunks, then the end of the stream or a read
error. -/
structure Inbound where
  chunks : List (List UInt8)
  fails : Bool

/-- What a connection made of its stream: the messages handed to the parser, in
order, and the oversize count. -/
@[ext] structure Served where
  handed : List (List UInt8)
  oversize : ℕ
  deriving DecidableEq

section
variable (fails : Bool)

/-- One read of `skip_past_nul`: the chunks after the NUL, or none at the end of
the stream or on an error. -/
def skipRound (chunks : List (List UInt8)) : Except Unit (Round (List (List UInt8)) (Option (List (List UInt8)))) :=
  let (read, rest, stopped) := readChunks nul skipChunk chunks
  if read = [] ∨ (!stopped && fails) then .ok (.done none)
  else if read.getLast? = some nul then .ok (.done (some rest))
  else .ok (.again rest)

/-- `skip_past_nul`. -/
def skipPastNul (fuel : ℕ) (chunks : List (List UInt8)) : Except Unit (Option (List (List UInt8))) :=
  loop () (skipRound fails) fuel chunks

/-- One turn of `serve_connection`; `maxMessage + 1` is a `u64`. -/
def serveRound (fuel maxMessage : ℕ) (s : List (List UInt8) × Served) :
    Except Unit (Round (List (List UInt8) × Served) Served) :=
  let (read, rest, stopped) := readChunks nul ((maxMessage + 1) % 2 ^ 64) s.1
  if !stopped && fails then .ok (.done s.2)
  else if read = [] then .ok (.done s.2)
  else if read.length > maxMessage then
    let out := { s.2 with oversize := s.2.oversize + 1 }
    if read.getLast? = some nul then .ok (.again (rest, out))
    else
      match skipPastNul fails fuel rest with
      | .error e => .error e
      | .ok none => .ok (.done out)
      | .ok (some rest) => .ok (.again (rest, out))
  else
    let buf := if read.getLast? = some nul then read.dropLast else read
    if buf = [] then .ok (.again (rest, s.2))
    else .ok (.again (rest, { s.2 with handed := s.2.handed ++ [buf] }))

end

/-- `serve_connection`, with a bound on its turns. -/
def serveConnection (fuel maxMessage : ℕ) (input : Inbound) : Except Unit Served :=
  loop () (serveRound input.fails fuel maxMessage) fuel (input.chunks, ⟨[], 0⟩)

/-! ### What a stream says -/

/-- The messages of a stream: the segments between its NULs that are not empty
and, with their NUL, within the limit, and the unterminated end if it is. -/
def messagesOf (fails : Bool) (maxMessage : ℕ) (bytes : List UInt8) : List (List UInt8) :=
  (bytes.splitOn nul).dropLast.filter (fun p => p ≠ [] ∧ p.length + 1 ≤ maxMessage) ++
    if fails then [] else (bytes.splitOn nul).getLast?.toList.filter fun p => p ≠ [] ∧ p.length ≤ maxMessage

/-- The segments past the limit. -/
def oversizeOf (maxMessage : ℕ) (bytes : List UInt8) : ℕ :=
  (bytes.splitOn nul).dropLast.countP (fun p => maxMessage < p.length + 1) +
    (bytes.splitOn nul).getLast?.toList.countP fun p => maxMessage < p.length

section
variable {p : List UInt8} (hp : nul ∉ p) {maxMessage : ℕ}
include hp

theorem messagesOf_segment (fails : Bool) (rest : List UInt8) :
    messagesOf fails maxMessage (p ++ nul :: rest) =
      (if p ≠ [] ∧ p.length + 1 ≤ maxMessage then [p] else []) ++ messagesOf fails maxMessage rest := by
  have hne := List.splitOn_ne_nil nul rest
  unfold messagesOf
  rw [List.splitOn_append_cons_self_of_not_mem hp, List.dropLast_cons_of_ne_nil hne, List.filter_cons,
    List.getLast?_cons_of_ne_nil hne]
  by_cases h : p ≠ [] ∧ p.length + 1 ≤ maxMessage
  · rw [if_pos h, if_pos (by simpa using h)]
    rfl
  · rw [if_neg h, if_neg (by simpa using h)]
    rfl

theorem oversizeOf_segment (rest : List UInt8) : oversizeOf maxMessage (p ++ nul :: rest) =
    (if maxMessage < p.length + 1 then 1 else 0) + oversizeOf maxMessage rest := by
  have hne := List.splitOn_ne_nil nul rest
  unfold oversizeOf
  rw [List.splitOn_append_cons_self_of_not_mem hp, List.dropLast_cons_of_ne_nil hne, List.countP_cons,
    List.getLast?_cons_of_ne_nil hne]
  simp only [decide_eq_true_eq]
  omega

theorem messagesOf_end (fails : Bool) :
    messagesOf fails maxMessage p = if fails then [] else if p ≠ [] ∧ p.length ≤ maxMessage then [p] else [] := by
  unfold messagesOf
  rw [List.splitOn_eq_singleton hp]
  cases fails with
  | true => rfl
  | false =>
    by_cases h : p ≠ [] ∧ p.length ≤ maxMessage
    · simp [h]
    · simp only [List.dropLast_singleton, List.filter_nil, List.getLast?_singleton, Option.toList_some,
        List.filter_cons, decide_eq_true_eq, if_neg h, List.nil_append]

theorem messagesOf_long_end {fails : Bool} (hlong : maxMessage < p.length) : messagesOf fails maxMessage p = [] := by
  rw [messagesOf_end hp, if_neg fun h : p ≠ [] ∧ p.length ≤ maxMessage => absurd h.2 (Nat.not_le.mpr hlong), ite_self]

theorem oversizeOf_end : oversizeOf maxMessage p = if maxMessage < p.length then 1 else 0 := by
  unfold oversizeOf
  rw [List.splitOn_eq_singleton hp]
  simp [List.countP_cons]

end

theorem messagesOf_nil (fails : Bool) (maxMessage : ℕ) : messagesOf fails maxMessage [] = [] := by
  rw [messagesOf_end List.not_mem_nil, if_neg fun h : [] ≠ [] ∧ _ => h.1 rfl, ite_self]

theorem oversizeOf_nil (maxMessage : ℕ) : oversizeOf maxMessage [] = 0 := by
  rw [oversizeOf_end List.not_mem_nil]
  exact if_neg (Nat.not_lt_zero _)

/-! ### The connection -/

theorem getLast?_concat_nul (p : List UInt8) : (p ++ [nul]).getLast? = some nul := List.getLast?_concat

theorem getLast?_ne_nul {p : List UInt8} (hp : nul ∉ p) : p.getLast? ≠ some nul := fun h =>
  hp (List.mem_of_getLast? h)

/-- What a skip answers: the chunks behind the next NUL, or none. -/
inductive Skipped (chunks : List (List UInt8)) : Except Unit (Option (List (List UInt8))) → Prop
  | none (clean : nul ∉ chunks.flatten) : Skipped chunks (.ok none)
  | some (q : List UInt8) (rest : List (List UInt8)) (clean : nul ∉ q)
    (eq : chunks.flatten = q ++ nul :: rest.flatten) : Skipped chunks (.ok (some rest))

/-- **A skip ends behind the next NUL**, or finds that there is none. -/
theorem skipped_skipPastNul (fails : Bool) (chunks : List (List UInt8)) {fuel : ℕ}
    (hfuel : chunks.flatten.length < fuel) : Skipped chunks (skipPastNul fails fuel chunks) := by
  refine loop_post (fun c : List (List UInt8) => ∃ q, nul ∉ q ∧ chunks.flatten = q ++ c.flatten)
    (fun c => c.flatten.length) (Skipped chunks) ?_ ⟨[], List.not_mem_nil, rfl⟩ hfuel
  rintro c ⟨q, hq, hc⟩
  have hend := @readEnd_readChunks UInt8 _ nul skipChunk (by decide) c
  unfold skipRound
  generalize readChunks nul skipChunk c = r at hend ⊢
  obtain ⟨read, rest, stopped⟩ := r
  dsimp only at hend ⊢
  generalize hrest : rest.flatten = left at hend
  cases hend with
  | delimiter p left clean eq fits =>
    rw [if_neg (by simp), if_pos (getLast?_concat_nul p)]
    refine .some (q ++ p) rest ?_ ?_
    · exact fun h => (List.mem_append.mp h).elim hq clean
    · rw [hc, eq, hrest, List.append_assoc]
  | full p left clean eq len =>
    have hpos : 0 < read.length := by rw [len]; decide
    rw [if_neg (by simpa using List.ne_nil_of_length_pos hpos), if_neg (getLast?_ne_nul clean)]
    refine ⟨⟨q ++ read, fun h => (List.mem_append.mp h).elim hq clean, ?_⟩, ?_⟩
    · rw [hc, eq, hrest, List.append_assoc]
    · show rest.flatten.length < c.flatten.length
      rw [eq, hrest, List.length_append]
      omega
  | ended clean fits =>
    have hclean : nul ∉ chunks.flatten := by
      rw [hc]
      exact fun h => (List.mem_append.mp h).elim hq clean
    by_cases hstop : c.flatten = [] ∨ (!false && fails) = true
    · rw [if_pos hstop]
      exact .none hclean
    · rw [if_neg hstop, if_neg (getLast?_ne_nul clean)]
      refine ⟨⟨q ++ c.flatten, by rwa [← hc], ?_⟩, ?_⟩
      · rw [hrest, List.append_nil]
        exact hc
      · show rest.flatten.length < c.flatten.length
        rw [hrest]
        exact List.length_pos_of_ne_nil fun h => hstop (.inl h)

/-- What a connection has done, and what is left to do, make up its stream. -/
structure Served.Towards (fails : Bool) (maxMessage : ℕ) (goal : Served) (s : List (List UInt8) × Served) : Prop where
  handed : s.2.handed ++ messagesOf fails maxMessage s.1.flatten = goal.handed
  oversize : s.2.oversize + oversizeOf maxMessage s.1.flatten = goal.oversize

theorem towards_serveRound (fails : Bool) {maxMessage : ℕ} (hmax : maxMessage < u64Max) (goal : Served) {fuel : ℕ}
    (s : List (List UInt8) × Served) (hs : s.1.flatten.length < fuel ∧ goal.Towards fails maxMessage s) :
    RoundPost (fun s => s.1.flatten.length < fuel ∧ goal.Towards fails maxMessage s) (fun s => s.1.flatten.length)
      (fun r => r = .ok goal) s (serveRound fails fuel maxMessage s) := by
  obtain ⟨chunks, out⟩ := s
  obtain ⟨hfuel, hhanded, hoversize⟩ := hs
  dsimp only at hfuel hhanded hoversize
  have hroom : (maxMessage + 1) % 2 ^ 64 = maxMessage + 1 := Nat.mod_eq_of_lt (by unfold u64Max at hmax; omega)
  have hend := @readEnd_readChunks UInt8 _ nul (maxMessage + 1) (Nat.succ_pos _) chunks
  unfold serveRound
  dsimp only
  rw [hroom]
  generalize readChunks nul (maxMessage + 1) chunks = r at hend ⊢
  obtain ⟨read, rest, stopped⟩ := r
  dsimp only at hend ⊢
  generalize hrest : rest.flatten = left at hend
  cases hend with
  | delimiter p left clean eq fits =>
    rw [eq, ← hrest, messagesOf_segment clean] at hhanded
    rw [eq, ← hrest, oversizeOf_segment clean] at hoversize
    have hshort : rest.flatten.length < chunks.flatten.length := by
      rw [eq, hrest, List.length_append, List.length_cons]
      omega
    have hless : rest.flatten.length < fuel := Nat.lt_trans hshort hfuel
    rw [if_neg (by simp), if_neg (by simp), List.length_append, List.length_singleton]
    by_cases hlong : p.length + 1 > maxMessage
    · rw [if_neg fun h => absurd h.2 (Nat.not_le.mpr hlong)] at hhanded
      rw [if_pos hlong] at hoversize
      rw [if_pos hlong, if_pos (getLast?_concat_nul p)]
      exact ⟨⟨hless, hhanded, by dsimp only; omega⟩, hshort⟩
    · rw [if_neg hlong] at hoversize
      rw [if_neg hlong, if_pos (getLast?_concat_nul p), List.dropLast_concat]
      by_cases hempty : p = []
      · rw [if_neg fun h => h.1 hempty] at hhanded
        rw [if_pos hempty]
        exact ⟨⟨hless, hhanded, by dsimp only; omega⟩, hshort⟩
      · rw [if_pos ⟨hempty, Nat.not_lt.mp hlong⟩, ← List.append_assoc] at hhanded
        rw [if_neg hempty]
        exact ⟨⟨hless, hhanded, by dsimp only; omega⟩, hshort⟩
  | full p left clean eq len =>
    have hlen : chunks.flatten.length = maxMessage + 1 + rest.flatten.length := by
      rw [eq, hrest, List.length_append, len]
    rw [if_neg (by simp), if_neg (List.ne_nil_of_length_pos (by omega)), if_pos (by omega),
      if_neg (getLast?_ne_nul clean)]
    have hskip := skipped_skipPastNul fails rest (show rest.flatten.length < fuel by omega)
    generalize skipPastNul fails fuel rest = answer at hskip ⊢
    cases hskip with
    | none hnone =>
      -- the stream ends inside the message
      have hclean : nul ∉ chunks.flatten := by
        rw [eq, ← hrest]
        exact fun h => (List.mem_append.mp h).elim clean hnone
      rw [messagesOf_long_end hclean (by omega), List.append_nil] at hhanded
      rw [oversizeOf_end hclean, if_pos (by omega)] at hoversize
      exact congrArg Except.ok (Served.ext hhanded hoversize)
    | some q after hq hafter =>
      have hclean : nul ∉ read ++ q := fun h => (List.mem_append.mp h).elim clean hq
      have hsegment : chunks.flatten = (read ++ q) ++ nul :: after.flatten := by
        rw [eq, ← hrest, hafter, List.append_assoc]
      have hshort : after.flatten.length < chunks.flatten.length := by
        rw [hsegment, List.length_append, List.length_cons]
        omega
      have hlong : (read ++ q).length + 1 > maxMessage := by
        rw [List.length_append]
        omega
      rw [hsegment, messagesOf_segment hclean, if_neg fun h => absurd h.2 (Nat.not_le.mpr hlong)] at hhanded
      rw [hsegment, oversizeOf_segment hclean, if_pos hlong] at hoversize
      exact ⟨⟨Nat.lt_trans hshort hfuel, hhanded, by dsimp only; omega⟩, hshort⟩
  | ended clean fits =>
    rw [messagesOf_end clean] at hhanded
    rw [oversizeOf_end clean, if_neg (by omega)] at hoversize
    by_cases hfails : fails = true
    · rw [hfails, if_pos rfl, List.append_nil] at hhanded
      rw [if_pos (by simp [hfails])]
      exact congrArg Except.ok (Served.ext hhanded hoversize)
    · rw [if_neg hfails] at hhanded
      rw [if_neg (by simpa using hfails)]
      by_cases hempty : chunks.flatten = []
      · rw [if_neg fun h => h.1 hempty, List.append_nil] at hhanded
        rw [if_pos hempty]
        exact congrArg Except.ok (Served.ext hhanded hoversize)
      · rw [if_pos ⟨hempty, by omega⟩] at hhanded
        rw [if_neg hempty, if_neg (by omega), if_neg (getLast?_ne_nul clean), if_neg hempty]
        have hshort : rest.flatten.length < chunks.flatten.length := by
          rw [hrest]
          exact List.length_pos_of_ne_nil hempty
        exact ⟨⟨Nat.lt_trans hshort hfuel, by rw [hrest, messagesOf_nil, List.append_nil]; exact hhanded,
          by rw [hrest, oversizeOf_nil]; exact hoversize⟩, hshort⟩

/-- **GELF TCP framing.** Whatever chunks a stream comes in, a connection ends
with its messages handed to the parser in order, and every segment past the
limit counted once. -/
theorem gelf_tcp_framing (maxMessage : ℕ) (hmax : maxMessage < u64Max) (chunks : List (List UInt8)) (fuel : ℕ)
    (hfuel : chunks.flatten.length < fuel) :
    serveConnection fuel maxMessage ⟨chunks, false⟩ =
      .ok ⟨messagesOf false maxMessage chunks.flatten, oversizeOf maxMessage chunks.flatten⟩ := by
  refine loop_post _ _ _ (towards_serveRound false hmax ⟨_, _⟩) ⟨hfuel, ?_⟩ hfuel
  exact ⟨List.nil_append _, Nat.zero_add _⟩

/-- At a limit of three: a message that fills it, an empty one, one past it cut
in two, and an unterminated one. -/
theorem gelf_tcp_framing_three :
    serveConnection 10 3 ⟨[[104, 105], [0, 0, 111], [111, 111, 0, 121]], false⟩ = .ok ⟨[[104, 105], [121]], 1⟩ :=
  (gelf_tcp_framing 3 (by decide) [[104, 105], [0, 0, 111], [111, 111, 0, 121]] 10 (by decide)).trans
    (by decide +kernel)

end Logmon
