/-
Contexts: the place in the source that a diagnostic points at, with some lines
around it.
-/
import Scrutiny.Text.Lines

namespace Scrutiny

/-- Where a diagnostic points. -/
structure Context where
  /-- The line, from one. -/
  line : Nat
  /-- The column, from one, when it is known. -/
  column : Option Nat
  /-- The line's content, if there is such a line. -/
  snippet : Option String
  /-- The lines around it, and the line itself. -/
  surrounding : List String
  /-- The number of the first surrounding line. -/
  firstLine : Nat
deriving DecidableEq, Repr

namespace Context

/-- How many lines are shown on either side unless told otherwise. -/
def defaultWindow : Nat := 2

/-- The last line of a window, as a 64-bit word: line numbers wrap around. -/
def windowEnd (line window : Nat) : Nat :=
  (line + window) % Nat.pow 2 64

/-- The context of a line with `window` lines on either side.  A line that does not
exist has no content and nothing around it. -/
def ofSource (source : String) (line : Nat) (column : Option Nat) (window : Nat) : Context :=
  let lines := (splitLines source.toList).map String.ofList
  let snippet := if line = 0 then none else lines[line - 1]?
  if line = 0 ∨ lines.length < line then
    ⟨line, column, snippet, [], line⟩
  else
    let start := line - 1 - window
    let stop := min (windowEnd line window) lines.length
    ⟨line, column, snippet, (lines.take stop).drop start, start + 1⟩

/-- The surrounding lines with their numbers. -/
def numbered (context : Context) : List (Nat × String) :=
  context.surrounding.mapIdx fun i text => (context.firstLine + i, text)

end Context

end Scrutiny
