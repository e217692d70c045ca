/-
Advice on names and spacing, in the order of the lines it is about.
-/
import Scrutiny.Check.Basic
import Scrutiny.Text.Pattern

namespace Scrutiny.Style

open Pattern

/-- Whether a name is in lower case, with digits and underscores. -/
def isSnakeCase (name : String) : Bool :=
  match name.toList with
  | [] => false
  | c :: cs =>
    (c.isLower || c == '_') && cs.all fun c => c.isLower || c.isDigit || c == '_'

/-- Whether a name starts with a capital and has letters and digits only. -/
def isCapWords (name : String) : Bool :=
  match name.toList with
  | [] => false
  | c :: cs => c.isUpper && cs.all Char.isAlphanum

/-- What to say of the name that a statement defines. -/
def namingAdvice? : Stmt → Option String
  | .function _ definition =>
    if definition.name != "__init__" && !isSnakeCase definition.name then
      some s!"Function '{definition.name}' should use lowercase_with_underscores"
    else none
  | .class_ _ definition =>
    if isCapWords definition.name then none
    else some s!"Class '{definition.name}' should use CapWords convention"
  | _ => none

/-- A comma with white space after it. -/
def spacedComma : Pattern := seq (literal ",") (one isBlank)

/-- An operator with no space on either side. -/
def crampedOperator : Pattern :=
  concat [one isWordChar, one ("+-*/=<>".toList.contains ·), one isWordChar]

/-- What to say of the spacing of a line. -/
def spacingAdvice (line : List Char) (number : Nat) : List String :=
  (if line.contains ',' && !spacedComma.isIn line then
    [s!"Line {number}: Add space after comma"]
  else []) ++
    (if crampedOperator.isIn line then [s!"Line {number}: Add spaces around operators"] else [])

/-- Everything to say about a text, with the lines it is about. -/
def adviceOf (subject : Subject) : List (Nat × String) :=
  let naming := (allStmts subject.body).filterMap fun s =>
    (namingAdvice? s).map (subject.lineOf s.span.start, ·)
  let spacing := ((splitLines subject.chars).zipIdx 1).flatMap fun (line, number) =>
    (spacingAdvice line number).map (number, ·)
  (naming ++ spacing).mergeSort fun a b => a.1 ≤ b.1

/-- Advise on names and spacing. -/
def check : Check := .ofFindings "style" fun subject =>
  (adviceOf subject).map fun (_, text) => .suggestion text

end Scrutiny.Style
