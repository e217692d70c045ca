/-
Advice on common pitfalls that have a well-known way out.
-/
import Scrutiny.Check.Basic
import Scrutiny.Text.Pattern

namespace Scrutiny.Pitfalls

open Pattern

/-- Whether an expression makes a list, a dictionary or a set that can change. -/
def isMutable : Expr → Bool
  | .list .. => true
  | .dict .. => true
  | .set .. => true
  | _ => false

/-- What to say of the defaults of a function, once for each that can change. -/
def defaultAdvice (definition : FunctionDef) : List String :=
  ((definition.params.filterMap (·.default)).filter isMutable).map fun _ =>
    s!"Function '{definition.name}' has mutable default argument"

/-- A type compared by equality. -/
def typeEquality : Pattern :=
  concat [literal "type(", some1 (· != ')'), literal ")", blanks, literal "=="]

/-- Something compared with `None` by equality. -/
def noneEquality : Pattern :=
  concat [anyOf ["==", "!="], blanks, literal "None"]

/-- Advise on common pitfalls. -/
def check : Check := .ofFindings "best-practices" fun subject =>
  let text := subject.chars
  let defaults := ((allStmts subject.body).filterMap Stmt.function?).flatMap defaultAdvice
  let types :=
    if typeEquality.isIn text then ["Use isinstance() instead of type() == for type checking"]
    else []
  let files :=
    if occursIn "open(" text && !occursIn "with" text then
      ["Use 'with' statement for file operations"]
    else []
  let nones :=
    if noneEquality.isIn text then ["Use 'is None' or 'is not None' instead of == None"] else []
  (defaults ++ types ++ files ++ nones).map .suggestion

end Scrutiny.Pitfalls
