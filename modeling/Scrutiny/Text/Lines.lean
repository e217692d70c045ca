/-
Lines of a text.

Two views of the same lines.  `splitLines` gives their contents, without the line
ending and without an empty line after the last one.  `LineTable` maps byte
offsets to line and column numbers, both counted from one; there the text after a
final newline is a line of its own.  It looks a line up by halves, which it may as
its starts ascend.
-/
import Scrutiny.Text.Bytes

namespace Scrutiny

/-! ### Contents -/

/-- Cut a text after every newline; each piece keeps its ending. -/
def lineChunks : List Char → List (List Char)
  | [] => []
  | c :: cs =>
    if c = '\n' then
      [c] :: lineChunks cs
    else
      match lineChunks cs with
      | [] => [[c]]
      | chunk :: chunks => (c :: chunk) :: chunks

/-- A piece without its ending: LF or CRLF.  A carriage return that no newline
follows belongs to the line. -/
def lineContent (chunk : List Char) : List Char :=
  if chunk.getLast? = some '\n' then
    let body := chunk.dropLast
    if body.getLast? = some '\r' then body.dropLast else body
  else
    chunk

/-- The contents of the lines of a text. -/
def splitLines (cs : List Char) : List (List Char) :=
  (lineChunks cs).map lineContent

/-! ### Positions -/

/-- Where in a text a reader would look: line and column, both from one; the
column counts characters. -/
structure Position where
  line : Nat
  column : Nat
deriving DecidableEq, Repr

/-- The offsets just after each newline of a text that begins at `offset`. -/
def startsAfterNewlines (offset : Nat) : List Char → List Nat
  | [] => []
  | c :: cs =>
    let next := offset + c.utf8Size
    if c = '\n' then
      next :: startsAfterNewlines next cs
    else
      startsAfterNewlines next cs

/-- The byte offset at which each line of a text starts, and the text's size. -/
structure LineTable where
  /-- The first line starts at zero. -/
  starts : List Nat
  ascending : starts.Pairwise (· < ·)
  /-- The text's length in bytes. -/
  size : Nat
deriving DecidableEq, Repr

theorem le_of_mem_startsAfterNewlines {offset start : Nat} {cs : List Char}
    (h : start ∈ startsAfterNewlines offset cs) :
    offset < start ∧ start ≤ offset + byteLength cs := by
  induction cs generalizing offset with
  | nil => simp [startsAfterNewlines] at h
  | cons c cs ih =>
    have hpos := c.utf8Size_pos
    rw [byteLength_cons]
    simp only [startsAfterNewlines] at h
    split at h
    · rcases List.mem_cons.mp h with rfl | h
      · omega
      · have := ih h
        omega
    · have := ih h
      omega

theorem startsAfterNewlines_ascending (offset : Nat) (cs : List Char) :
    (startsAfterNewlines offset cs).Pairwise (· < ·) := by
  fun_induction startsAfterNewlines offset cs with
  | case1 => exact .nil
  | case2 offset cs next ih => exact .cons (fun _ h => (le_of_mem_startsAfterNewlines h).1) ih
  | case3 offset c cs next hc ih => exact ih

/-- Where a number stands in an ascending list, or where it would. -/
inductive Slot where
  | taken (index : Nat)
  | free (index : Nat)
deriving DecidableEq, Repr

/-- Look for a number from index `low` to before `high`, by halves. -/
def searchSlot (starts : List Nat) (offset low high : Nat) : Slot :=
  if low < high then
    let middle := (low + high) / 2
    let start := starts.getD middle 0
    if start = offset then .taken middle
    else if start < offset then searchSlot starts offset (middle + 1) high
    else searchSlot starts offset low middle
  else
    .free low
termination_by high - low

namespace LineTable

/-- The line table of a text. -/
def ofText (cs : List Char) : LineTable where
  starts := 0 :: startsAfterNewlines 0 cs
  ascending := .cons (fun _ h => (le_of_mem_startsAfterNewlines h).1)
    (startsAfterNewlines_ascending 0 cs)
  size := byteLength cs

/-- The line that holds byte `offset`; past the end it is the last line. -/
def line (table : LineTable) (offset : Nat) : Nat :=
  match searchSlot table.starts (min offset table.size) 0 table.starts.length with
  | .taken index => index + 1
  | .free index => index

/-- How many lines there are. -/
def lineCount (table : LineTable) : Nat :=
  table.starts.length

/-- The position of byte `offset`.  Inside a multi-byte character there is no
column to count to, and the first one is given. -/
def position (table : LineTable) (cs : List Char) (offset : Nat) : Position :=
  let line := table.line offset
  let start := table.starts.getD (line - 1) 0
  let stop := max (min offset table.size) start
  ⟨line, ((sliceBytes? cs ⟨start, stop⟩).map List.length).getD 0 + 1⟩

end LineTable

end Scrutiny
