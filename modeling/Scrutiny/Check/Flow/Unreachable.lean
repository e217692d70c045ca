/-
Statements that cannot run, because an earlier statement of their block always
leaves it.

Each function is looked at by itself: a definition inside it has statements of its
own.  What is inside an unreachable statement is not reported again.
-/
import Scrutiny.Check.Basic

namespace Scrutiny

mutual

/-- The unreachable statements in the blocks of a statement that is no definition,
each with the statement that cuts it off. -/
def Stmt.unreachable : Stmt → List (Stmt × Stmt)
  | .if_ _ _ body orElse => blockUnreachable body ++ blockUnreachable orElse
  | .while_ _ _ body orElse => blockUnreachable body ++ blockUnreachable orElse
  | .for_ _ _ _ body orElse _ => blockUnreachable body ++ blockUnreachable orElse
  | .try_ _ body handlers orElse finalBody =>
    blockUnreachable body ++ handlersUnreachable handlers ++ blockUnreachable orElse ++
      blockUnreachable finalBody
  | .with_ _ _ body _ => blockUnreachable body
  | .match_ _ _ cases => casesUnreachable cases
  | _ => []

/-- The unreachable statements of a block, each with the statement that cuts it off. -/
def blockUnreachable : List Stmt → List (Stmt × Stmt)
  | [] => []
  | s :: rest =>
    s.unreachable ++
      if s.isTerminal then rest.map (s, ·) else blockUnreachable rest

/-- The unreachable statements of handlers. -/
def handlersUnreachable : List Handler → List (Stmt × Stmt)
  | [] => []
  | ⟨_, _, _, body, _⟩ :: rest => blockUnreachable body ++ handlersUnreachable rest

/-- The unreachable statements of case clauses. -/
def casesUnreachable : List MatchCase → List (Stmt × Stmt)
  | [] => []
  | ⟨_, _, _, body, _⟩ :: rest => blockUnreachable body ++ casesUnreachable rest

end

namespace Unreachable

/-- Warn about every unreachable statement of a function. -/
def check : Check := .ofFindings "unreachable-code" fun subject =>
  ((allStmts subject.body).filterMap Stmt.function?).flatMap fun definition =>
    (blockUnreachable definition.body).map fun (cut, s) =>
      let line := subject.lineOf s.span.start
      .warning (subject.diagnosticAt line <|
        s!"Unreachable code detected: statement after {cut.keyword} in " ++
          s!"'{definition.name}' (line {line})")

end Unreachable

end Scrutiny
