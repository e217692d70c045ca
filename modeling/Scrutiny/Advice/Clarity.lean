/-
Advice on documentation, dense expressions and unnamed numbers.
-/
import Scrutiny.Check.Basic
import Scrutiny.Syntax.Visit
import Scrutiny.Text.Pattern

namespace Scrutiny.Clarity

open Pattern

/-- Functions of at most this many statements need no documentation. -/
def undocumentedLimit : Nat := 5

/-- A chain of `and` or `or` of more operands than this is hard to read. -/
def chainLimit : Nat := 3

/-- Whether a block starts with a plain string. -/
def isDocumented : List Stmt → Bool
  | .expr _ (.string _ literal) :: _ => !literal.isBytes && !literal.isFormatted
  | _ => false

/-- What to say of the documentation of a statement. -/
def documentationAdvice? : Stmt → Option String
  | .function _ definition =>
    if !isDocumented definition.body && undocumentedLimit < definition.body.length then
      some s!"Function '{definition.name}' is missing a docstring"
    else none
  | .class_ _ definition =>
    if isDocumented definition.body then none
    else some s!"Class '{definition.name}' is missing a docstring"
  | _ => none

/-- What to say of an expression. -/
def densityAdvice? : Expr → Option String
  | .boolOp _ _ values =>
    if chainLimit < values.length then
      some "Consider breaking down complex boolean expressions"
    else none
  | .lambda .. => some "Consider using a named function instead of lambda for clarity"
  | _ => none

/-- A number of at least two digits. -/
def largeNumber : Pattern :=
  concat [wordEdge, one isDecimalDigit, some1 isDecimalDigit, wordEdge]

/-- A line that gives a name to a number. -/
def namedNumber : Pattern :=
  concat [lineStart, blanks, some1 isWordChar, blanks, literal "=", blanks, some1 isDecimalDigit]

/-- Advise on readability. -/
def check : Check := .ofFindings "readability" fun subject =>
  let documentation := (allStmts subject.body).filterMap documentationAdvice?
  let density := subject.tree.module.values.filterMap densityAdvice?
  let numbers :=
    if largeNumber.isIn subject.chars && !namedNumber.isIn subject.chars then
      ["Consider defining constants for magic numbers"]
    else []
  (documentation ++ density ++ numbers).map .suggestion

end Scrutiny.Clarity
