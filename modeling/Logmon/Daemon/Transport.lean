/-
# Reading requests off a connection

`RequestReader` of `daemon/transport.rs`: newline-delimited requests, read
through `take(room).read_until(b'\n', &mut self.pending)` by a call that the
connection loop may drop at any time and make again. What a dropped call read
is in `pending`; how much its `take` still let through, and how much it had
read, is lost with it. Parsing a line is a parameter, and so is the limit
`max`, which the daemon sets to 64 MiB.

`read_until` reads what has arrived until a newline, the end of its room or
the end of the input. Its buffering is not modelled: a read that takes only a
part of what has arrived is one with the rest arriving later.

The results are those of reading the whole stream line by line
(`lineByLine`), whatever chunks it arrives in and wherever calls are dropped
(`framing_is_line_by_line`).

Key definitions: `RequestReader`, `PendingRead`, `Connection`, `ReadTurn`,
`lineByLine`.
Key theorems: `Framed.poll`, `framing_is_line_by_line`.
-/
import Logmon.Lib.Lines

namespace Logmon

open Lib

/-- `b'\n'`. -/
def newline : UInt8 := 10

/-- What a call gives back. -/
inductive ReadResult (ρ ε : Type)
  | request (r : ρ)
  | parseError (e : ε)
  /-- "request line exceeds `max` bytes". -/
  | overLimit (max : ℕ)
  | endOfInput

def ReadResult.isRequest {ρ ε : Type} : ReadResult ρ ε → Bool
  | .request _ => true
  | _ => false

/-- The reader: what has been read of the current line. -/
structure RequestReader where
  pending : List UInt8

/-- A call of `next_limited` under way: what its `take` still lets through, and
what it has read. -/
structure PendingRead where
  room : ℕ
  read : ℕ

section
variable {ρ ε : Type} (parse : List UInt8 → Except ε ρ) (max : ℕ)

namespace RequestReader

/-- The call begins: one byte past the limit is let through. -/
def beginRead (r : RequestReader) : PendingRead := ⟨max + 1 - r.pending.length, 0⟩

/-- The call ends: `read_until` has returned `n`. -/
def endRead (r : RequestReader) (n : ℕ) : RequestReader × ReadResult ρ ε :=
  if r.pending.length > max then (⟨[]⟩, .overLimit max)
  else if n = 0 ∧ r.pending = [] then (r, .endOfInput)
  else
    match parse r.pending with
    | .ok q => (⟨[]⟩, .request q)
    | .error e => (⟨[]⟩, .parseError e)

end RequestReader

/-- A connection: its reader, the input that has arrived and is not yet read,
the call under way, and what the calls have given back. -/
structure Connection (ρ ε : Type) where
  requests : RequestReader
  arrived : List UInt8
  /-- The end of the input has arrived. -/
  closed : Bool
  call : Option PendingRead
  results : List (ReadResult ρ ε)

namespace Connection

def new : Connection ρ ε := ⟨⟨[]⟩, [], false, none, []⟩

/-- The connection loop ends at the end of the input and at an error. -/
def ended (c : Connection ρ ε) : Bool := c.results.any fun r => !r.isRequest

/-- Poll the call under way, or a new one. -/
def poll (c : Connection ρ ε) : Connection ρ ε :=
  if c.ended then c
  else
    let call := c.call.getD (c.requests.beginRead max)
    let (read, left, stopped) := readUntil newline call.room c.arrived
    let requests : RequestReader := ⟨c.requests.pending ++ read⟩
    if stopped || c.closed then
      let (requests, result) := requests.endRead parse max (call.read + read.length)
      { requests, arrived := left, closed := c.closed, call := none, results := c.results ++ [result] }
    else
      { c with requests, arrived := left, call := some ⟨call.room - read.length, call.read + read.length⟩ }

def close (c : Connection ρ ε) : Connection ρ ε := { c with closed := true }

end Connection

/-- What happens on a connection: bytes arrive, the call is polled, the call is
dropped because another branch of the loop won. -/
inductive ReadTurn
  | arrive (chunk : List UInt8)
  | poll
  | drop

namespace Connection

def turn (c : Connection ρ ε) : ReadTurn → Connection ρ ε
  | .arrive chunk => if c.closed then c else { c with arrived := c.arrived ++ chunk }
  | .poll => c.poll parse max
  | .drop => { c with call := none }

def run (c : Connection ρ ε) (turns : List ReadTurn) : Connection ρ ε := turns.foldl (turn parse max) c

end Connection

/-- The bytes that arrive over the turns. -/
def bytesOf : List ReadTurn → List UInt8
  | [] => []
  | .arrive chunk :: turns => chunk ++ bytesOf turns
  | _ :: turns => bytesOf turns

/-- How often a call is polled. -/
def pollsOf : List ReadTurn → ℕ
  | [] => 0
  | .poll :: turns => pollsOf turns + 1
  | _ :: turns => pollsOf turns

/-- The results of reading a whole stream line by line, up to the first error:
a line of at most `max` bytes with its newline is parsed, a longer one is
refused. -/
def lineByLine (stream : List UInt8) : List (ReadResult ρ ε) :=
  if h : stream = [] then [.endOfInput]
  else if (cutAfter newline stream).1.length > max then [.overLimit max]
  else
    match parse (cutAfter newline stream).1 with
    | .error e => [.parseError e]
    | .ok q => .request q :: lineByLine (cutAfter newline stream).2
termination_by stream.length
decreasing_by exact length_cutAfter_lt h

variable {parse max} {c : Connection ρ ε} {stream : List UInt8}

/-! ### The stream read so far -/

/-- `stream` has arrived. The connection has ended with the results of the
whole stream, or it has the results of the lines before the current one, of
which `pending` is the beginning. Both hold whatever `more` arrives later. -/
structure Framed (parse : List UInt8 → Except ε ρ) (max : ℕ) (stream : List UInt8) (c : Connection ρ ε) : Prop where
  done : c.ended = true → ∀ more, (c.closed = true → more = []) →
    lineByLine parse max (stream ++ more) = c.results
  ahead : c.ended = false → ∀ more, (c.closed = true → more = []) →
    lineByLine parse max (stream ++ more) =
      c.results ++ lineByLine parse max (c.requests.pending ++ c.arrived ++ more)
  line : newline ∉ c.requests.pending
  fits : c.requests.pending.length ≤ max
  call : ∀ call ∈ c.call, call.room + c.requests.pending.length = max + 1 ∧ call.read ≤ c.requests.pending.length

theorem framed_new : Framed parse max [] (Connection.new : Connection ρ ε) :=
  ⟨fun h => absurd h Bool.false_ne_true, fun _ _ _ => rfl, List.not_mem_nil, Nat.zero_le _, fun _ h => (nomatch h)⟩

theorem Framed.drop (h : Framed parse max stream c) : Framed parse max stream { c with call := none } :=
  ⟨h.done, h.ahead, h.line, h.fits, fun _ h => (nomatch h)⟩

theorem Framed.close (h : Framed parse max stream c) : Framed parse max stream c.close :=
  ⟨fun hend more hmore => h.done hend more fun _ => hmore rfl, fun hend more hmore => h.ahead hend more fun _ => hmore rfl,
    h.line, h.fits, h.call⟩

theorem Framed.arrive (h : Framed parse max stream c) (hopen : c.closed = false) (chunk : List UInt8) :
    Framed parse max (stream ++ chunk) { c with arrived := c.arrived ++ chunk } := by
  refine ⟨fun hend more _ => ?_, fun hend more _ => ?_, h.line, h.fits, h.call⟩
  · rw [List.append_assoc]
    exact h.done hend (chunk ++ more) fun hc => absurd hc (by rw [hopen]; exact Bool.false_ne_true)
  · rw [List.append_assoc, h.ahead hend (chunk ++ more) fun hc => absurd hc (by rw [hopen]; exact Bool.false_ne_true)]
    simp only [List.append_assoc]

/-! ### A call that ends -/

theorem endRead_pending (r : RequestReader) (n : ℕ) : (r.endRead parse max n).1.pending = [] := by
  unfold RequestReader.endRead
  split
  · rfl
  · split
    · rename_i h
      exact h.2
    · split <;> rfl

/-- A call that ends gives back the next line's result, if what it read is the
line, or too much of it. -/
theorem lineByLine_eq_endRead {r : RequestReader} {n : ℕ} {whole rest : List UInt8} (hn : n ≤ r.pending.length)
    (hline : r.pending.length ≤ max → cutAfter newline whole = (r.pending, rest))
    (hlong : max < r.pending.length → max < (cutAfter newline whole).1.length) :
    lineByLine parse max whole = (r.endRead parse max n).2 ::
      if (r.endRead parse max n).2.isRequest then lineByLine parse max rest else [] := by
  unfold RequestReader.endRead
  by_cases hlen : r.pending.length > max
  · have hne : whole ≠ [] := by
      rintro rfl
      exact absurd (hlong hlen) (Nat.not_lt_zero _)
    rw [if_pos hlen, lineByLine, dif_neg hne, if_pos (hlong hlen)]
    rfl
  rw [if_neg hlen]
  have hcut := hline (Nat.le_of_not_lt hlen)
  by_cases hempty : r.pending = []
  · have hnil : whole = [] := by
      by_contra hne
      have hfirst := @cutAfter_ne_nil _ _ newline _ hne
      rw [hcut] at hfirst
      exact hfirst hempty
    have hzero : n = 0 := by rw [hempty] at hn; exact Nat.le_zero.mp hn
    rw [if_pos ⟨hzero, hempty⟩, lineByLine, dif_pos hnil]
    rfl
  · have hne : whole ≠ [] := by
      rintro rfl
      exact hempty (congrArg Prod.fst hcut).symm
    rw [if_neg fun h => hempty h.2, lineByLine, dif_neg hne, hcut, if_neg hlen]
    cases parse r.pending with
    | error e => rfl
    | ok q => rfl

/-- A read that is over, or that has met the end of the input, has the current
line, or too much of it. -/
theorem line_of_read {p arrived more : List UInt8} {room : ℕ} (hp : newline ∉ p) (hroom : room + p.length = max + 1)
    (hstop : (readUntil newline room arrived).2.2 = true ∨ more = []) :
    ((p ++ (readUntil newline room arrived).1).length ≤ max →
        cutAfter newline (p ++ arrived ++ more) =
          (p ++ (readUntil newline room arrived).1, (readUntil newline room arrived).2.1 ++ more)) ∧
      (max < (p ++ (readUntil newline room arrived).1).length →
        max < (cutAfter newline (p ++ arrived ++ more)).1.length) := by
  rw [List.append_assoc, cutAfter_append hp]
  by_cases hover : (readUntil newline room arrived).2.2 = true
  · rcases readUntil_stopped hover with hcut | ⟨hmem, hlen⟩
    · rw [hcut more]
      exact ⟨fun _ => rfl, id⟩
    · -- the room was used up: the line is longer than the limit
      have hfull : (p ++ (readUntil newline room arrived).1).length = max + 1 := by
        rw [List.length_append, hlen]
        omega
      refine ⟨fun hle => by omega, fun _ => ?_⟩
      have hsplit : arrived ++ more = (readUntil newline room arrived).1 ++ ((readUntil newline room arrived).2.1 ++ more) := by
        rw [← List.append_assoc, readUntil_eq]
      rw [hsplit, cutAfter_append hmem, List.length_append, List.length_append]
      rw [List.length_append] at hfull
      omega
  · -- all that arrived was read, and nothing more comes
    obtain ⟨heq, hmem, hlen⟩ := readUntil_exhausted (by simpa using hover)
    obtain rfl : more = [] := hstop.resolve_left hover
    rw [heq, List.append_nil, cutAfter_of_not_mem hmem]
    exact ⟨fun _ => rfl, id⟩

/-- The results with one more. -/
theorem Framed.result (h : Framed parse max stream c) (hend : c.ended = false) {r : RequestReader} {left : List UInt8}
    {result : ReadResult ρ ε} (hr : r.pending = [])
    (hnext : ∀ more, (c.closed = true → more = []) →
      lineByLine parse max (c.requests.pending ++ c.arrived ++ more) =
        result :: if result.isRequest then lineByLine parse max (left ++ more) else []) :
    Framed parse max stream
      { requests := r, arrived := left, closed := c.closed, call := none, results := c.results ++ [result] } := by
  have hends : (c.results ++ [result]).any (fun r => !r.isRequest) = !result.isRequest := by
    have hold : (c.results.any fun r => !r.isRequest) = false := hend
    rw [List.any_append, hold]
    simp
  refine ⟨fun hdone more hmore => ?_, fun hdone more hmore => ?_, ?_, ?_, fun _ h => (nomatch h)⟩
  · have hlast : result.isRequest = false := by simpa [Connection.ended, hends] using hdone
    rw [h.ahead hend more hmore, hnext more hmore, hlast]
    rfl
  · have hlast : result.isRequest = true := by simpa [Connection.ended, hends] using hdone
    rw [h.ahead hend more hmore, hnext more hmore, hlast, if_pos rfl, hr, List.append_assoc]
    rfl
  · rw [hr]
    exact List.not_mem_nil
  · rw [hr]
    exact Nat.zero_le _

/-- **A poll keeps the stream in step**, and gives a result once the input has
ended. -/
theorem Framed.poll (h : Framed parse max stream c) : Framed parse max stream (c.poll parse max) ∧
    (c.closed = true → c.ended = false → (c.poll parse max).results.length = c.results.length + 1) := by
  unfold Connection.poll
  by_cases hend : c.ended = true
  · rw [if_pos hend]
    exact ⟨h, fun _ hnot => absurd hend (by rw [hnot]; exact Bool.false_ne_true)⟩
  rw [if_neg hend]
  have hgoing : c.ended = false := by simpa using hend
  have hcall : (c.call.getD (c.requests.beginRead max)).room + c.requests.pending.length = max + 1 ∧
      (c.call.getD (c.requests.beginRead max)).read ≤ c.requests.pending.length := by
    cases hc : c.call with
    | none =>
      have := h.fits
      exact ⟨by show max + 1 - c.requests.pending.length + c.requests.pending.length = max + 1; omega, Nat.zero_le _⟩
    | some call => exact h.call call hc
  generalize c.call.getD (c.requests.beginRead max) = call at hcall ⊢
  obtain ⟨hroom, hread⟩ := hcall
  simp only
  by_cases hstop : ((readUntil newline call.room c.arrived).2.2 || c.closed) = true
  · rw [if_pos hstop]
    refine ⟨h.result hgoing (endRead_pending _ _) fun more hmore => ?_, fun _ _ => ?_⟩
    · have hover : (readUntil newline call.room c.arrived).2.2 = true ∨ more = [] :=
        ((Bool.or_eq_true _ _).mp hstop).imp_right hmore
      obtain ⟨hline, hlong⟩ := line_of_read h.line hroom hover
      refine lineByLine_eq_endRead ?_ hline hlong
      show call.read + _ ≤ (c.requests.pending ++ _).length
      rw [List.length_append]
      omega
    · rw [List.length_append, List.length_singleton]
  · -- the call goes on waiting
    rw [if_neg hstop]
    obtain ⟨hover, hopen⟩ : (readUntil newline call.room c.arrived).2.2 = false ∧ c.closed = false := by
      simpa using hstop
    obtain ⟨heq, hmem, hlen⟩ := readUntil_exhausted hover
    rw [heq]
    simp only
    refine ⟨⟨fun hdone => ?_, fun _ more hmore => ?_, ?_, ?_, ?_⟩, fun hclosed => ?_⟩
    · exact absurd hdone hend
    · rw [h.ahead hgoing more hmore, List.append_nil]
    · exact fun hin => (List.mem_append.mp hin).elim h.line hmem
    · rw [List.length_append]
      omega
    · intro call' hcall'
      obtain rfl := Option.some.inj hcall'
      rw [List.length_append]
      simp only
      omega
    · rw [hopen] at hclosed
      exact absurd hclosed Bool.false_ne_true

/-! ### Whole runs -/

@[simp] theorem poll_closed (c : Connection ρ ε) : (c.poll parse max).closed = c.closed := by
  unfold Connection.poll
  split
  · rfl
  · simp only
    split <;> rfl

theorem turn_arrive_open (hopen : c.closed = false) (chunk : List UInt8) :
    c.turn parse max (.arrive chunk) = { c with arrived := c.arrived ++ chunk } := by
  show (if c.closed then c else _) = _
  rw [hopen, if_neg Bool.false_ne_true]

theorem turn_arrive_closed (hclosed : c.closed = true) (chunk : List UInt8) : c.turn parse max (.arrive chunk) = c := by
  show (if c.closed then c else _) = _
  rw [if_pos hclosed]

@[simp] theorem turn_closed (c : Connection ρ ε) (t : ReadTurn) : (c.turn parse max t).closed = c.closed := by
  cases t with
  | arrive chunk =>
    cases hc : c.closed with
    | false => rw [turn_arrive_open hc, hc]
    | true => rw [turn_arrive_closed hc, hc]
  | poll => exact poll_closed c
  | drop => rfl

theorem run_closed (turns : List ReadTurn) (c : Connection ρ ε) : (c.run parse max turns).closed = c.closed := by
  induction turns generalizing c with
  | nil => rfl
  | cons t turns ih =>
    show ((c.turn parse max t).run parse max turns).closed = c.closed
    rw [ih, turn_closed]

/-- An ended connection reads no more. -/
theorem run_ended (turns : List ReadTurn) (h : c.ended = true) : (c.run parse max turns).ended = true := by
  induction turns generalizing c with
  | nil => exact h
  | cons t turns ih =>
    refine ih ?_
    cases t with
    | arrive chunk =>
      cases hc : c.closed with
      | false => rw [turn_arrive_open hc]; exact h
      | true => rw [turn_arrive_closed hc]; exact h
    | poll =>
      show (c.poll parse max).ended = true
      unfold Connection.poll
      rw [if_pos h]
      exact h
    | drop => exact h

/-- The turns before the input ends. -/
theorem Framed.run (turns : List ReadTurn) (h : Framed parse max stream c) (hopen : c.closed = false) :
    Framed parse max (stream ++ bytesOf turns) (c.run parse max turns) := by
  induction turns generalizing c stream with
  | nil =>
    rw [bytesOf, List.append_nil]
    exact h
  | cons t turns ih =>
    have hopen' : (c.turn parse max t).closed = false := by rw [turn_closed, hopen]
    cases t with
    | arrive chunk =>
      have hturn : Framed parse max (stream ++ chunk) (c.turn parse max (.arrive chunk)) := by
        rw [turn_arrive_open hopen]
        exact h.arrive hopen chunk
      rw [bytesOf, ← List.append_assoc]
      exact ih hturn hopen'
    | poll => exact ih h.poll.1 hopen'
    | drop => exact ih h.drop hopen'

/-- The turns after the input has ended: each poll gives a result until the
connection ends. -/
theorem Framed.run_closed (turns : List ReadTurn) (h : Framed parse max stream c) (hclosed : c.closed = true) :
    Framed parse max stream (c.run parse max turns) ∧
      ((c.run parse max turns).ended = true ∨ c.results.length + pollsOf turns ≤ (c.run parse max turns).results.length) := by
  induction turns generalizing c with
  | nil => exact ⟨h, .inr (Nat.le_refl _)⟩
  | cons t turns ih =>
    have hclosed' : (c.turn parse max t).closed = true := by rw [turn_closed, hclosed]
    cases t with
    | arrive chunk =>
      have hsame : c.run parse max (.arrive chunk :: turns) = c.run parse max turns := by
        show (c.turn parse max (.arrive chunk)).run parse max turns = _
        rw [turn_arrive_closed hclosed]
      rw [hsame]
      exact ih h hclosed
    | poll =>
      obtain ⟨hpoll, hmore⟩ := h.poll
      obtain ⟨hframed, hresults⟩ := ih hpoll hclosed'
      refine ⟨hframed, ?_⟩
      cases hend : c.ended with
      | true => exact .inl (run_ended (.poll :: turns) hend)
      | false =>
        refine hresults.imp_right fun hle => ?_
        rw [hmore hclosed hend] at hle
        rw [pollsOf]
        show c.results.length + (pollsOf turns + 1) ≤ ((c.poll parse max).run parse max turns).results.length
        omega
    | drop => exact ih h.drop hclosed'

/-- A connection that has not ended has fewer results than the stream. -/
theorem Framed.isPrefix (h : Framed parse max stream c) {more : List UInt8} (hmore : c.closed = true → more = []) :
    c.results <+: lineByLine parse max (stream ++ more) := by
  cases hend : c.ended with
  | true =>
    have hdone : lineByLine parse max (stream ++ more) = c.results := h.done hend more hmore
    exact hdone ▸ List.prefix_rfl
  | false =>
    rw [h.ahead hend more hmore]
    exact List.prefix_append _ _

/-- **Framing is independent of chunking and of dropped calls.** Bytes arrive,
calls are polled and dropped in any order, and the input ends: the results are
a beginning of those of the whole stream read line by line, and all of them
once calls have been polled often enough. Before the end of the input they are
a beginning of the results of any stream that goes on from there. -/
theorem framing_is_line_by_line (parse : List UInt8 → Except ε ρ) (max : ℕ) (before after : List ReadTurn) :
    let c : Connection ρ ε := Connection.new.run parse max before
    let d := c.close.run parse max after
    (∀ more, c.results <+: lineByLine parse max (bytesOf before ++ more)) ∧
      d.results <+: lineByLine parse max (bytesOf before) ∧
      ((lineByLine parse max (bytesOf before)).length ≤ pollsOf after →
        d.results = lineByLine parse max (bytesOf before)) := by
  intro c d
  have hc : Framed parse max (bytesOf before) c := Framed.run before framed_new rfl
  obtain ⟨hd, hresults⟩ := Framed.run_closed after hc.close rfl
  have hbegins : d.results <+: lineByLine parse max (bytesOf before) := by
    have := @Framed.isPrefix _ _ parse max _ _ hd [] fun _ => rfl
    rwa [List.append_nil] at this
  refine ⟨fun more => hc.isPrefix fun h => ?_, hbegins, fun hpolls => ?_⟩
  · rw [run_closed] at h
    exact absurd h Bool.false_ne_true
  · rcases hresults with hend | hlen
    · have := hd.done hend [] fun _ => rfl
      rw [List.append_nil] at this
      exact this.symm
    · have hmany : pollsOf after ≤ d.results.length := Nat.le_trans (Nat.le_add_left _ _) hlen
      exact hbegins.eq_of_length_le (Nat.le_trans hpolls hmany)

/-- A request of two bytes that arrives one by one, its first call dropped,
then an unfinished one of the same length. -/
theorem framing_of_dropped_call :
    ((Connection.new.run (fun l => if l.length = 2 then .ok l.length else .error ()) 2
        [.arrive [97], .poll, .drop, .arrive [10], .poll, .arrive [98]]).close.run
          (fun l => if l.length = 2 then .ok l.length else .error ()) 2 [.poll, .poll] : Connection ℕ Unit).results =
      [.request 2, .parseError ()] := by
  have hlines : lineByLine (fun l : List UInt8 => if l.length = 2 then .ok l.length else .error ()) 2 [97, 10, 98] =
      [.request 2, (.parseError () : ReadResult ℕ Unit)] := by
    simp [lineByLine, cutAfter, newline]
  have hframing := (framing_is_line_by_line (fun l => if l.length = 2 then .ok l.length else .error ()) 2
    [.arrive [97], .poll, .drop, .arrive [10], .poll, .arrive [98]] [.poll, .poll] (ρ := ℕ) (ε := Unit)).2.2
  simp only [bytesOf, List.cons_append, List.nil_append, hlines] at hframing
  exact hframing (by decide)

end

end Logmon
