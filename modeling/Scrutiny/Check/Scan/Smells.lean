/-
Common issues that show in the text: patterns that hint at unfinished or careless
code, and overlong lines.

The text is searched as it is, so a pattern inside a string or a comment counts.
-/
import Scrutiny.Check.Basic
import Scrutiny.Text.Pattern

namespace Scrutiny.Smells

open Pattern

/-- What to look for, and what to say when it is there. -/
def table : List (Pattern × String) := [
  (concat [literal "except", blanks, literal ":"],
    "Bare except clause - specify exception types"),
  (concat [literal "import", blanks1, literal "*"],
    "Wildcard imports - consider explicit imports"),
  (concat [wordAt "global", blanks1],
    "Global variable usage - consider refactoring"),
  (concat [wordAt "pass", blanks, lineEnd],
    "Empty code block - add implementation or remove"),
  (anyOf ["TODO", "FIXME", "XXX"],
    "Unfinished code markers found"),
  (concat [literal "print", blanks, literal "(", restOfLine, literal ")", blanks, literal "#",
      blanks, literal "debug"],
    "Debug print statements found")]

/-- The patterns of the table that a text has, by what to say. -/
def found (cs : List Char) : List String :=
  (table.filter (·.1.isIn cs)).map Prod.snd

/-- The numbers of the lines longer than a limit. -/
def longLines (limit : Nat) (cs : List Char) : List Nat :=
  ((splitLines cs).zipIdx 1).filterMap fun (line, number) =>
    if limit < line.length then some number else none

/-- Warn about common issues. -/
def check : Check :=
  (Check.ofFindings "common-issues" fun subject =>
    let limit := subject.config.maxLineLength
    let long := (longLines limit subject.chars).map fun number =>
      s!"Line {number} exceeds {limit} chars"
    (found subject.chars ++ long).map fun message => .warning (.ofMessage message)).when
    (·.level.scansCommonIssues)

end Scrutiny.Smells
