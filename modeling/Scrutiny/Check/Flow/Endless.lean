/-
Loops whose condition always holds and that nothing leaves.
-/
import Scrutiny.Check.Basic

namespace Scrutiny

mutual

/-- Whether a statement can leave the loop around it.  `own` says whether a `break`
here belongs to that loop.  A `return` or `raise` leaves every loop, and what a
definition holds leaves none. -/
def Stmt.exits (own : Bool) : Stmt → Bool
  | .break_ _ => own
  | .return_ .. => true
  | .raise_ .. => true
  | .while_ _ _ body orElse => blockExits false body || blockExits own orElse
  | .for_ _ _ _ body orElse _ => blockExits false body || blockExits own orElse
  | .if_ _ _ body orElse => blockExits own body || blockExits own orElse
  | .try_ _ body handlers orElse finalBody =>
    blockExits own body || handlersExit own handlers || blockExits own orElse ||
      blockExits own finalBody
  | .with_ _ _ body _ => blockExits own body
  | .match_ _ _ cases => casesExit own cases
  | _ => false

/-- Whether some statement of a block can leave the loop around it. -/
def blockExits (own : Bool) : List Stmt → Bool
  | [] => false
  | s :: rest => s.exits own || blockExits own rest

/-- Whether some handler can leave the loop around it. -/
def handlersExit (own : Bool) : List Handler → Bool
  | [] => false
  | ⟨_, _, _, body, _⟩ :: rest => blockExits own body || handlersExit own rest

/-- Whether some case clause can leave the loop around it. -/
def casesExit (own : Bool) : List MatchCase → Bool
  | [] => false
  | ⟨_, _, _, body, _⟩ :: rest => blockExits own body || casesExit own rest

end

/-- Whether a statement is a loop that never ends. -/
def Stmt.isEndless : Stmt → Bool
  | .while_ _ test body _ => test.isAlwaysTrue && !blockExits true body
  | _ => false

namespace Endless

/-- Warn about every loop that never ends. -/
def check : Check := .ofFindings "infinite-loops" fun subject =>
  ((allStmts subject.body).filter Stmt.isEndless).map fun s =>
    let line := subject.lineOf s.span.start
    .warning (subject.diagnosticAt line
      s!"Potential infinite loop detected: while True without break statement (line {line})")

end Endless

end Scrutiny
