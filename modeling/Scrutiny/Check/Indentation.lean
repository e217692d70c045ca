/-
Indentation of the logical lines against the configured width of a level.

A line is expected at a level of a stack: the margin first, and for every line that
opens a block one level in from it.  Returning to an outer level closes the levels
it leaves.  The check sees logical lines alone, so that neither a continued line nor
the inside of a string is taken for code.
-/
import Scrutiny.Check.Basic

namespace Scrutiny.Indentation

/-- What is wrong with the indentation of a line. -/
inductive Fault where
  /-- Tabs and spaces in one indentation. -/
  | mixed
  /-- Deeper than the line before opens. -/
  | unexpected
  /-- Back to where no enclosing line is. -/
  | inconsistent
deriving DecidableEq, Repr

/-- The wording of a fault. -/
def Fault.message : Fault → String
  | mixed => "Mixed tabs and spaces in indentation"
  | unexpected => "Unexpected indentation level"
  | inconsistent => "Inconsistent indentation"

/-- How to mend a fault when a level is `size` wide. -/
def Fault.suggestions (size : Nat) : Fault → List String
  | mixed =>
    ["Use only spaces for indentation (PEP 8 recommendation)",
      "Configure your editor to convert tabs to spaces"]
  | unexpected => ["Ensure proper nesting of code blocks", "Check for missing or extra colons"]
  | inconsistent =>
    [s!"Use {size} spaces per indentation level",
      "Check that dedent aligns with a previous indentation level"]

/-- Meet a line of the given indentation at a stack of expected levels, innermost
first: the levels that stay open, and what is wrong. -/
def meet (levels : List Nat) (indent : Nat) : List Nat × Option Fault :=
  let level := levels.headD 0
  if indent = level then (levels, none)
  else if level < indent then (levels, some .unexpected)
  else
    let kept := levels.dropWhile (indent < ·)
    if kept.head? = some indent then (kept, none) else (kept, some .inconsistent)

/-- Whether an indentation has both tabs and spaces. -/
def isMixed (indent : List Char) : Bool :=
  indent.contains '\t' && indent.contains ' '

/-- The faults of some logical lines from a stack of levels on, with their lines. -/
def faultsFrom (size : Nat) : List Nat → List LogicalLine → List (Nat × Fault)
  | _, [] => []
  | levels, line :: rest =>
    let indent := line.indent.toList
    let (kept, fault) := meet levels indent.length
    let opened := if line.opensBlock then (indent.length + size) :: kept else kept
    (if isMixed indent then [(line.line, .mixed)] else []) ++
      (fault.map (line.line, ·)).toList ++ faultsFrom size opened rest

/-- The faults of the logical lines of a text. -/
def faults (size : Nat) (lines : List LogicalLine) : List (Nat × Fault) :=
  faultsFrom size [0] lines

/-- Report every line that is indented wrongly. -/
def check : Check := .ofFindings "indentation" fun subject =>
  let size := subject.config.indentSize
  (faults size subject.tree.logicalLines).map fun (line, fault) =>
    .error ((subject.diagnosticAt line fault.message).suggestAll (fault.suggestions size))

end Scrutiny.Indentation
