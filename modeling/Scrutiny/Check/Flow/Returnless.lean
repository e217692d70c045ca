/-
Functions that declare a result and never return one.

A `return` is looked for in the blocks of a function, and a `yield` by a visit to its
expressions as well.  Neither search enters a definition.
-/
import Scrutiny.Check.Basic
import Scrutiny.Syntax.Visit

namespace Scrutiny

mutual

/-- Whether a statement returns a value, in its blocks too.  What a definition holds does
not count. -/
def Stmt.returnsValue : Stmt → Bool
  | .return_ _ value => value.isSome
  | .if_ _ _ body orElse | .while_ _ _ body orElse | .for_ _ _ _ body orElse _ =>
    blockReturnsValue body || blockReturnsValue orElse
  | .try_ _ body handlers orElse finalBody =>
    blockReturnsValue body || handlersReturnValue handlers || blockReturnsValue orElse ||
      blockReturnsValue finalBody
  | .with_ _ _ body _ => blockReturnsValue body
  | .match_ _ _ cases => casesReturnValue cases
  | _ => false

/-- Whether some statement of a block returns a value. -/
def blockReturnsValue : List Stmt → Bool
  | [] => false
  | s :: rest => s.returnsValue || blockReturnsValue rest

/-- Whether some handler returns a value. -/
def handlersReturnValue : List Handler → Bool
  | [] => false
  | ⟨_, _, _, body, _⟩ :: rest => blockReturnsValue body || handlersReturnValue rest

/-- Whether some case clause returns a value. -/
def casesReturnValue : List MatchCase → Bool
  | [] => false
  | ⟨_, _, _, body, _⟩ :: rest => blockReturnsValue body || casesReturnValue rest

end

/-- The visits to a function's block that enter no definition inside it. -/
def scopeVisits (body : List Stmt) : List Visit :=
  blockVisits (fun s => !s.isDefinition) body

/-- Whether a visit meets a `yield`. -/
def Visit.isYield : Visit → Bool
  | .expr .value (.yield ..) => true
  | .expr .value (.yieldFrom ..) => true
  | _ => false

/-- Whether a visit to a block, outside the definitions in it, meets a `yield`. -/
def blockYields (body : List Stmt) : Bool := (scopeVisits body).any Visit.isYield

/-- Whether a statement is a string or `...` by itself. -/
def Stmt.isPlaceholder : Stmt → Bool
  | .expr _ (.constant _ .ellipsis) => true
  | .expr _ (.string ..) => true
  | _ => false

namespace FunctionDef

/-- Whether a function declares that it returns a value. -/
def declaresValue (definition : FunctionDef) : Bool :=
  match definition.returns with
  | none => false
  | some (.constant _ .none) => false
  | some hint =>
    let noValue := ["NoReturn", "Never", "typing.NoReturn", "typing.Never"]
    !noValue.any (hint.dottedName? == some ·)

/-- Whether a function declares a value and has neither a `return` of one nor a
`yield`.  A function of placeholders alone only declares an interface. -/
def lacksReturn (definition : FunctionDef) : Bool :=
  definition.name != "__init__" && definition.declaresValue &&
    !definition.body.all Stmt.isPlaceholder &&
    !(blockReturnsValue definition.body || blockYields definition.body)

end FunctionDef

/-- The function without a `return` that a statement defines, if it does. -/
def Stmt.returnless? (s : Stmt) : Option FunctionDef :=
  s.function?.filter FunctionDef.lacksReturn

namespace Returnless

/-- Warn about every function that declares a value and returns none. -/
def check : Check := .ofFindings "missing-returns" fun subject =>
  (allStmts subject.body).filterMap fun s =>
    s.returnless?.map fun definition =>
      .warning (subject.diagnosticAt (subject.lineOf s.span.start)
        s!"Function '{definition.name}' may be missing return statement")

end Returnless

end Scrutiny
