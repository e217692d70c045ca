/-
The grammar of statements.

A logical line is one compound statement or some simple ones.  A compound statement
ends in suites: a colon, and then either an indented block or simple statements on
the same line.  `match`, `case` and `type` are names that are reserved only where a
statement or clause of that kind can be read.

Statements nest through suites alone, and a suite begins with a colon, so the rule
for statements is unrolled once per token.
-/
import Scrutiny.Grammar.Expr
import Scrutiny.Syntax.Stmt

namespace Scrutiny

namespace Grammar

open Scrutiny.Parser

/-! ### Simple statements -/

/-- A right-hand side: `yield`, or expressions. -/
def rightSide (r : ExprRules) : Parser Expr :=
  yieldExpr r <|> exprList (starItem r)

/-- `a.b.c`, joined again. -/
def dottedName : Parser String := do
  let parts ← sepBy1 name (symbol .dot)
  return ".".intercalate parts

/-- `as name` -/
def asName : Parser (Option String) :=
  opt (do keyword .as_; name)

def importStmt : Parser (Span → Stmt) := do
  keyword .import_
  let names ← sepBy1 (do
    let name ← dottedName
    let asName ← asName
    return (⟨name, asName⟩ : Alias)) comma
  return (.import_ · names)

/-- One imported name. -/
def plainAlias : Parser Alias := do
  let name ← name
  let asName ← asName
  return ⟨name, asName⟩

/-- `*`, names in parentheses, or names. -/
def importedNames : Parser (List Alias) :=
  (do
    symbol .star
    return [⟨"*", none⟩]) <|>
  bracketed .round (sepEndBy1 plainAlias comma) <|>
  sepBy1 plainAlias comma

/-- How many packages up an import starts: one per dot. -/
def relativeLevel : Parser Nat := do
  let dots ← many (satisfy fun
    | .symbol .dot => some 1
    | .symbol .ellipsis => some 3
    | _ => none)
  return dots.foldl (· + ·) 0

def importFromStmt : Parser (Span → Stmt) := do
  keyword .from_
  let level ← relativeLevel
  let module ← opt dottedName
  if level = 0 ∧ module.isNone then fail
  keyword .import_
  let names ← importedNames
  return (.importFrom · module level names)

def returnStmt (r : ExprRules) : Parser (Span → Stmt) := do
  keyword .return_
  let value ← opt (exprList (starItem r))
  return (.return_ · value)

def raiseStmt (r : ExprRules) : Parser (Span → Stmt) := do
  keyword .raise_
  let raised ← opt do
    let exc ← r.expr
    let cause ← opt (do keyword .from_; r.expr)
    return (exc, cause)
  return match raised with
    | some (exc, cause) => (.raise_ · (some exc) cause)
    | none => (.raise_ · none none)

def deleteStmt (r : ExprRules) : Parser (Span → Stmt) := do
  keyword .del_
  let targets ← sepEndBy1 (starItem r) comma
  return (.delete_ · targets)

def assertStmt (r : ExprRules) : Parser (Span → Stmt) := do
  keyword .assert_
  let test ← r.expr
  let msg ← opt (do comma; r.expr)
  return (.assert_ · test msg)

def globalStmt : Parser (Span → Stmt) := do
  keyword .global_
  let names ← sepBy1 name comma
  return (.global_ · names)

def nonlocalStmt : Parser (Span → Stmt) := do
  keyword .nonlocal_
  let names ← sepBy1 name comma
  return (.nonlocal_ · names)

/-- One type parameter; what stands after `=` is read and left out. -/
def typeParam (r : ExprRules) : Parser TypeParam := node do
  let _ ← opt (symbol .doubleStar <|> symbol .star)
  let name ← name
  let bound ← opt (do symbol .colon; r.expr)
  let _ ← opt (do symbol .assign; r.expr)
  return (⟨name, bound, ·⟩)

/-- `[T, U: bound, *Ts, **P]`, or nothing. -/
def typeParams (r : ExprRules) : Parser (List TypeParam) := do
  let params ← opt (bracketed .square (sepEndBy1 (typeParam r) comma))
  return params.getD []

def typeAlias (r : ExprRules) : Parser (Span → Stmt) := do
  word "type"
  let name ← nameAtom
  let params ← typeParams r
  symbol .assign
  let value ← r.expr
  return (.typeAlias · name params value)

/-- What may follow the first expressions of a statement. -/
inductive AssignTail where
  | annotated (hint : Expr) (value : Option Expr)
  | augmented (op : BinOp) (value : Expr)
  /-- The sides after the first `=`, the first of them and the others. -/
  | chained (first : Expr) (more : List Expr)
  | nothing

def assignTail (r : ExprRules) : Parser AssignTail :=
  (do
    symbol .colon
    let hint ← r.expr
    let value ← opt (do symbol .assign; rightSide r)
    return .annotated hint value) <|>
  (do
    let op ← satisfy fun
      | .symbol (.augmented op) => some op
      | _ => none
    let value ← rightSide r
    return .augmented op value) <|>
  (do
    let first ← (do symbol .assign; rightSide r)
    let more ← many (do symbol .assign; rightSide r)
    return .chained first more) <|>
  return .nothing

/-- Of the sides of an assignment the last is the value and the others are targets. -/
def assignment (target first : Expr) (more : List Expr) (span : Span) : Stmt :=
  match more.getLast? with
  | none => .assign span [target] first
  | some value => .assign span (target :: first :: more.dropLast) value

/-- An expression, or an assignment of some form. -/
def exprStmt (r : ExprRules) : Parser (Span → Stmt) := do
  let left ← exprList (starItem r)
  let tail ← assignTail r
  return match tail with
    | .annotated hint value => (.annAssign · left hint value)
    | .augmented op value => (.augAssign · left op value)
    | .chained first more => assignment left first more
    | .nothing => (.expr · left)

/-- One simple statement. -/
def simpleStmt (r : ExprRules) : Parser Stmt := node <|
  (do keyword .pass_; return .pass_) <|>
  (do keyword .break_; return .break_) <|>
  (do keyword .continue_; return .continue_) <|>
  returnStmt r <|>
  raiseStmt r <|>
  deleteStmt r <|>
  assertStmt r <|>
  globalStmt <|>
  nonlocalStmt <|>
  importStmt <|>
  importFromStmt <|>
  (do let value ← yieldExpr r; return (.expr · value)) <|>
  typeAlias r <|>
  exprStmt r

/-- The simple statements of a line, with semicolons between. -/
def simpleLine (r : ExprRules) : Parser (List Stmt) := do
  let stmts ← sepEndBy1 (simpleStmt r) (symbol .semicolon)
  token .newline
  return stmts

/-! ### Compound statements -/

/-- An indented block, or the rest of the line. -/
def block (r : ExprRules) (line : Parser (List Stmt)) : Parser (List Stmt) :=
  (do
    token .newline
    token .indent
    let lines ← many1 line
    token .dedent
    return lines.flatten) <|>
  simpleLine r

section

variable (r : ExprRules) (suite : Parser (List Stmt))

def elseSuite : Parser (List Stmt) := do
  let stmts ← opt (do keyword .else_; suite)
  return stmts.getD []

/-- An `elif` is an `if` that is all there is in the else branch before it; it
stops where its last statement does. -/
def nestElif (clause : Span × Expr × List Stmt) (orElse : List Stmt) : List Stmt :=
  let (mark, test, body) := clause
  let last := orElse.getLast? <|> body.getLast?
  let stop := (last.map (·.span.stop)).getD mark.stop
  [.if_ ⟨mark.start, stop⟩ test body orElse]

def ifStmt : Parser (Span → Stmt) := do
  keyword .if_
  let test ← r.expr
  let body ← suite
  let elifs ← many do
    let mark ← spanOf (keyword .elif_)
    let test ← r.expr
    let body ← suite
    return (mark, test, body)
  let orElse ← elseSuite suite
  return (.if_ · test body (elifs.foldr nestElif orElse))

def whileStmt : Parser (Span → Stmt) := do
  keyword .while_
  let test ← r.expr
  let body ← suite
  let orElse ← elseSuite suite
  return (.while_ · test body orElse)

def forStmt : Parser (Span → Stmt) := do
  let isAsync ← opt (keyword .async_)
  keyword .for_
  let target ← targetList r
  keyword .in_
  let iter ← exprList (starItem r)
  let body ← suite
  let orElse ← elseSuite suite
  return (.for_ · target iter body orElse isAsync.isSome)

def handler : Parser Handler := node do
  keyword .except_
  let star ← opt (symbol .star)
  let header ← opt do
    let type ← r.expr
    let name ← asName
    return (type, name)
  let body ← suite
  return fun span =>
    ⟨header.map Prod.fst, star.isSome, header.bind Prod.snd, body, span⟩

def finallySuite : Parser (List Stmt) := do
  keyword .finally_
  suite

def tryStmt : Parser (Span → Stmt) := do
  keyword .try_
  let body ← suite
  (do
    let handlers ← many1 (handler r suite)
    let orElse ← elseSuite suite
    let finalBody ← opt (finallySuite suite)
    return (.try_ · body handlers orElse (finalBody.getD []))) <|>
  (do
    let finalBody ← finallySuite suite
    return (.try_ · body [] [] finalBody))

def withItem : Parser WithItem := do
  let context ← r.expr
  let vars ← opt (do keyword .as_; r.operand)
  return ⟨context, vars⟩

/-- Items in parentheses, unless the parentheses only group the first of them:
then it is not a colon that follows. -/
def withItems : Parser (List WithItem) :=
  (do
    let items ← bracketed .round (sepEndBy1 (withItem r) comma)
    ahead (symbol .colon)
    return items) <|>
  sepBy1 (withItem r) comma

def withStmt : Parser (Span → Stmt) := do
  let isAsync ← opt (keyword .async_)
  keyword .with_
  let items ← withItems r
  let body ← suite
  return (.with_ · items body isAsync.isSome)

def caseClause : Parser MatchCase := node do
  word "case"
  let pattern ← targetList r
  let binding ← opt (do keyword .as_; nameAtom)
  let guard ← opt (do keyword .if_; r.expr)
  let body ← suite
  return (⟨pattern, binding, guard, body, ·⟩)

def matchStmt : Parser (Span → Stmt) := do
  word "match"
  let subject ← exprList (starItem r)
  symbol .colon
  token .newline
  token .indent
  let cases ← many1 (caseClause r suite)
  token .dedent
  return (.match_ · subject cases)

def functionDef (decorators : List Expr) : Parser (Span → Stmt) := do
  let isAsync ← opt (keyword .async_)
  keyword .def_
  let name ← name
  let typeParams ← typeParams r
  let params ← bracketed .round (params r true)
  let returns ← opt (do symbol .arrow; r.expr)
  let body ← suite
  return (.function · ⟨name, typeParams, params, returns, body, decorators, isAsync.isSome⟩)

def classDef (decorators : List Expr) : Parser (Span → Stmt) := do
  keyword .class_
  let name ← name
  let typeParams ← typeParams r
  let args ← opt (arguments r)
  let body ← suite
  let (bases, keywords) := args.getD ([], [])
  return (.class_ · ⟨name, typeParams, bases, keywords, body, decorators⟩)

/-- A definition behind its decorators, one to a line. -/
def definition : Parser (Span → Stmt) := do
  let decorators ← many do
    symbol .atSign
    let decorator ← r.expr
    token .newline
    return decorator
  functionDef r suite decorators <|> classDef r suite decorators

/-- One compound statement. -/
def compoundStmt : Parser Stmt := node <|
  ifStmt r suite <|>
  whileStmt r suite <|>
  tryStmt r suite <|>
  forStmt r suite <|>
  withStmt r suite <|>
  matchStmt r suite <|>
  definition r suite

end

/-! ### Lines and modules -/

/-- One logical line, its blocks nested at most `n` deep. -/
def lineUpTo (r : ExprRules) : Nat → Parser (List Stmt)
  | 0 => fail
  | n + 1 =>
    let suite := do
      symbol .colon
      block r (lineUpTo r n)
    (do return [← compoundStmt r suite]) <|> simpleLine r

/-- A whole module of at most `n` tokens. -/
def moduleUpTo (n : Nat) : Parser Module := do
  let lines ← many (lineUpTo (.upTo (3 * n + 3)) (n + 1))
  eof
  return ⟨lines.flatten⟩

end Grammar

end Scrutiny
