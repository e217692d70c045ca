/-
Statements and modules.

A statement may hold blocks of further statements; `Stmt.blocks` lists them in
source order, and `allStmts` is every statement below a block, each before the
ones inside it.
-/
import Scrutiny.Syntax.Expr

namespace Scrutiny

/-- An imported name, possibly dotted, and what it is imported as. -/
structure Alias where
  name : String
  asName : Option String
deriving DecidableEq, Repr

/-- The name that an import binds: `import os.path` binds `os`. -/
def Alias.boundName (a : Alias) : String :=
  a.asName.getD (String.ofList (a.name.toList.takeWhile (· != '.')))

/-- `context as vars` in the header of a `with`. -/
structure WithItem where
  context : Expr
  vars : Option Expr

/-- `T`, `T: bound`, `*Ts` or `**P` in a type parameter list. -/
structure TypeParam where
  name : String
  bound : Option Expr
  span : Span

mutual

/-- A statement. -/
inductive Stmt where
  | expr (span : Span) (value : Expr)
  /-- `a = b = value` -/
  | assign (span : Span) (targets : List Expr) (value : Expr)
  /-- `target += value` -/
  | augAssign (span : Span) (target : Expr) (op : BinOp) (value : Expr)
  /-- `target: hint = value` -/
  | annAssign (span : Span) (target hint : Expr) (value : Option Expr)
  | pass_ (span : Span)
  | break_ (span : Span)
  | continue_ (span : Span)
  | return_ (span : Span) (value : Option Expr)
  /-- `raise exc from cause` -/
  | raise_ (span : Span) (exc cause : Option Expr)
  | delete_ (span : Span) (targets : List Expr)
  | assert_ (span : Span) (test : Expr) (msg : Option Expr)
  | global_ (span : Span) (names : List String)
  | nonlocal_ (span : Span) (names : List String)
  | import_ (span : Span) (names : List Alias)
  /-- `from ..module import names`, with one dot per level; `*` is an alias. -/
  | importFrom (span : Span) (module : Option String) (level : Nat) (names : List Alias)
  | if_ (span : Span) (test : Expr) (body orElse : List Stmt)
  | while_ (span : Span) (test : Expr) (body orElse : List Stmt)
  | for_ (span : Span) (target iter : Expr) (body orElse : List Stmt) (isAsync : Bool)
  | try_ (span : Span) (body : List Stmt) (handlers : List Handler)
      (orElse finalBody : List Stmt)
  | with_ (span : Span) (items : List WithItem) (body : List Stmt) (isAsync : Bool)
  | match_ (span : Span) (subject : Expr) (cases : List MatchCase)
  /-- `type name[typeParams] = value` -/
  | typeAlias (span : Span) (name : Expr) (typeParams : List TypeParam) (value : Expr)
  | function (span : Span) (definition : FunctionDef)
  | class_ (span : Span) (definition : ClassDef)

/-- `def name(params) -> returns: body` -/
structure FunctionDef where
  name : String
  typeParams : List TypeParam
  params : List Param
  returns : Option Expr
  body : List Stmt
  decorators : List Expr
  isAsync : Bool

/-- `class name(bases, keywords): body` -/
structure ClassDef where
  name : String
  typeParams : List TypeParam
  bases : List Expr
  keywords : List KeywordArg
  body : List Stmt
  decorators : List Expr

/-- `except type as name: body`, or `except*` for exception groups. -/
structure Handler where
  type : Option Expr
  isStar : Bool
  name : Option String
  body : List Stmt
  span : Span

/-- `case pattern as binding if guard: body` -/
structure MatchCase where
  pattern : Expr
  binding : Option Expr
  guard : Option Expr
  body : List Stmt
  span : Span

end

/-- A module: its top-level statements. -/
structure Module where
  body : List Stmt

namespace Stmt

/-- The text a statement came from. -/
def span : Stmt → Span
  | expr s _ | assign s _ _ | augAssign s _ _ _ | annAssign s _ _ _ | pass_ s | break_ s
  | continue_ s | return_ s _ | raise_ s _ _ | delete_ s _ | assert_ s _ _ | global_ s _
  | nonlocal_ s _ | import_ s _ | importFrom s _ _ _ | if_ s _ _ _ | while_ s _ _ _
  | for_ s _ _ _ _ _ | try_ s _ _ _ _ | with_ s _ _ _ | match_ s _ _ | typeAlias s _ _ _
  | function s _ | class_ s _ => s

/-- The blocks directly inside a statement, in source order; bodies of definitions
are among them. -/
def blocks : Stmt → List (List Stmt)
  | if_ _ _ body orElse | while_ _ _ body orElse | for_ _ _ _ body orElse _ => [body, orElse]
  | try_ _ body handlers orElse finalBody =>
    body :: handlers.map (·.body) ++ [orElse, finalBody]
  | with_ _ _ body _ => [body]
  | match_ _ _ cases => cases.map (·.body)
  | function _ definition => [definition.body]
  | class_ _ definition => [definition.body]
  | _ => []

/-- Whether a statement defines a function or a class, and so opens a scope. -/
def isDefinition : Stmt → Bool
  | function .. | class_ .. => true
  | _ => false

/-- The function that a statement defines, if it does. -/
def function? : Stmt → Option FunctionDef
  | function _ definition => some definition
  | _ => none

/-- Whether nothing after the statement in its block can run. -/
def isTerminal : Stmt → Bool
  | return_ .. | raise_ .. | break_ .. | continue_ .. => true
  | _ => false

/-- What to call a statement in a report. -/
def keyword : Stmt → String
  | expr .. => "expression"
  | assign .. | annAssign .. => "assignment"
  | augAssign .. => "augmented assignment"
  | pass_ .. => "pass"
  | break_ .. => "break"
  | continue_ .. => "continue"
  | return_ .. => "return"
  | raise_ .. => "raise"
  | delete_ .. => "del"
  | assert_ .. => "assert"
  | global_ .. => "global"
  | nonlocal_ .. => "nonlocal"
  | import_ .. | importFrom .. => "import"
  | if_ .. => "if"
  | while_ .. => "while"
  | for_ .. => "for"
  | try_ .. => "try"
  | with_ .. => "with"
  | match_ .. => "match"
  | typeAlias .. => "type"
  | function .. => "def"
  | class_ .. => "class"

end Stmt

/-! ### All statements of a tree -/

mutual

/-- A statement, then every statement inside it. -/
def Stmt.withInner : Stmt → List Stmt
  | s@(.if_ _ _ body orElse) => s :: (allStmts body ++ allStmts orElse)
  | s@(.while_ _ _ body orElse) => s :: (allStmts body ++ allStmts orElse)
  | s@(.for_ _ _ _ body orElse _) => s :: (allStmts body ++ allStmts orElse)
  | s@(.try_ _ body handlers orElse finalBody) =>
    s :: (allStmts body ++ handlerStmts handlers ++ allStmts orElse ++ allStmts finalBody)
  | s@(.with_ _ _ body _) => s :: allStmts body
  | s@(.match_ _ _ cases) => s :: caseStmts cases
  | s@(.function _ definition) => s :: definition.innerStmts
  | s@(.class_ _ definition) => s :: definition.innerStmts
  | s => [s]

/-- Every statement of a block and below it, depth first. -/
def allStmts : List Stmt → List Stmt
  | [] => []
  | s :: rest => s.withInner ++ allStmts rest

/-- Every statement below some handlers. -/
def handlerStmts : List Handler → List Stmt
  | [] => []
  | ⟨_, _, _, body, _⟩ :: rest => allStmts body ++ handlerStmts rest

/-- Every statement below some case clauses. -/
def caseStmts : List MatchCase → List Stmt
  | [] => []
  | ⟨_, _, _, body, _⟩ :: rest => allStmts body ++ caseStmts rest

/-- Every statement inside a function. -/
def FunctionDef.innerStmts : FunctionDef → List Stmt
  | ⟨_, _, _, _, body, _, _⟩ => allStmts body

/-- Every statement inside a class. -/
def ClassDef.innerStmts : ClassDef → List Stmt
  | ⟨_, _, _, _, body, _⟩ => allStmts body

end

end Scrutiny
