/-
The grammar of expressions.

Three rules refer to each other: `expr`, the full expression; `operand`, what a
comparison compares, which is also the form of a target; and `factor`, the operand
of the arithmetic operators.  Everything else is written in terms of these three.

The rules are unrolled a given number of times (`ExprRules.upTo`), and then fail.
Following the references without reading a token leads from `expr` to `operand` to
`factor` and no further, so three turns for every token are enough.

From loosest to tightest: `:=`, `lambda`, conditional, `or`, `and`, `not`,
comparisons, `|`, `^`, `&`, shifts, sums, products, signs, `**`, `await`, trailers.
-/
import Scrutiny.Grammar.Param
import Scrutiny.Grammar.Parser

namespace Scrutiny

/-- The three rules that the grammar of expressions is written in terms of. -/
structure ExprRules where
  expr : Parser Expr
  operand : Parser Expr
  factor : Parser Expr

namespace Grammar

open Scrutiny.Parser

/-! ### Building nodes -/

/-- `left op right` -/
def binary (left : Expr) (op : BinOp) (right : Expr) : Expr :=
  .binOp (.cover left.span right.span) left op right

/-- Extend a chain of one short-circuit operator, or start one. -/
def chain (op : BoolOp) (left right : Expr) : Expr :=
  let span := Span.cover left.span right.span
  match left with
  | .boolOp _ leftOp values =>
    if leftOp = op then .boolOp span op (values ++ [right]) else .boolOp span op [left, right]
  | _ => .boolOp span op [left, right]

/-- Comparisons chain into one node; without any the operand stands alone. -/
def comparisonOf (left : Expr) (rest : List (CmpOp × Expr)) : Expr :=
  match rest.getLast? with
  | none => left
  | some (_, last) =>
    .compare (.cover left.span last.span) left (rest.map Prod.fst) (rest.map Prod.snd)

/-- One item without a comma after it is itself; otherwise the items are a tuple. -/
def tupleUnlessSingle (items : List Expr) (trailing : Bool) (span : Span) : Expr :=
  match items, trailing with
  | [item], false => item
  | _, _ => .tuple span items

/-- An argument of a call. -/
inductive Argument where
  | positional (value : Expr)
  | keyword (argument : KeywordArg)

/-- The value of a positional argument. -/
def Argument.positional? : Argument → Option Expr
  | positional value => some value
  | keyword _ => none

/-- A keyword argument. -/
def Argument.keyword? : Argument → Option KeywordArg
  | positional _ => none
  | keyword argument => some argument

/-- What follows the first element of a display. -/
inductive ElementTail where
  | clauses (clauses : List Comprehension)
  | more (elements : List Expr)
  | nothing

/-- What may follow a primary. -/
inductive Trailer where
  | member (attr : String)
  | call (args : List Expr) (keywords : List KeywordArg)
  | index (index : Expr)

/-- A primary with one more trailer, which stops where the trailer does. -/
def withTrailer (value : Expr) (trailer : Trailer × Span) : Expr :=
  let span := Span.cover value.span trailer.2
  match trailer.1 with
  | .member attr => .member span value attr
  | .call args keywords => .call span value args keywords
  | .index index => .subscript span value index

/-! ### Lists of expressions -/

def comma : Parser Unit := symbol .comma

/-- `*operand` -/
def starredOperand (r : ExprRules) : Parser Expr := do
  let star ← spanOf (symbol .star)
  let value ← r.operand
  return .starred (.cover star value.span) value

/-- `*operand`, or an expression. -/
def starItem (r : ExprRules) : Parser Expr :=
  starredOperand r <|> r.expr

/-- Items with commas between; a tuple unless there is one item and no comma. -/
def exprList (item : Parser Expr) : Parser Expr := node do
  let items ← sepBy1 item comma
  let trailing ← opt comma
  return tupleUnlessSingle items trailing.isSome

/-- Targets with commas between. -/
def targetList (r : ExprRules) : Parser Expr :=
  exprList (starredOperand r <|> r.operand)

/-- `yield`, `yield a, b`, `yield from it` -/
def yieldExpr (r : ExprRules) : Parser Expr := node do
  keyword .yield_
  (do
    keyword .from_
    let value ← r.expr
    return (.yieldFrom · value)) <|>
  (do
    let value ← opt (exprList (starItem r))
    return (.yield · value))

/-! ### Comprehensions, arguments and parameters -/

/-- `async for target in iter if cond` -/
def clause (r : ExprRules) : Parser Comprehension := do
  let isAsync ← opt (keyword .async_)
  keyword .for_
  let target ← targetList r
  keyword .in_
  let iter ← r.expr
  let conditions ← many (do keyword .if_; r.expr)
  return ⟨target, iter, conditions, isAsync.isSome⟩

def clauses (r : ExprRules) : Parser (List Comprehension) :=
  many1 (clause r)

/-- An argument by position; with clauses after it, it is a generator. -/
def positionalArgument (r : ExprRules) : Parser Argument := node do
  let value ← r.expr
  let generators ← opt (clauses r)
  return fun span =>
    match generators with
    | some generators => .positional (.generator span value generators)
    | none => .positional value

/-- `**value`, `*value`, `name=value`, or a value. -/
def argument (r : ExprRules) : Parser Argument :=
  (do
    symbol .doubleStar
    let value ← r.expr
    return .keyword ⟨none, value⟩) <|>
  (do
    let star ← spanOf (symbol .star)
    let value ← r.expr
    return .positional (.starred (.cover star value.span) value)) <|>
  (do
    let arg ← name
    symbol .assign
    let value ← r.expr
    return .keyword ⟨some arg, value⟩) <|>
  positionalArgument r

/-- Arguments in parentheses, by position and by keyword. -/
def arguments (r : ExprRules) : Parser (List Expr × List KeywordArg) := do
  let args ← bracketed .round (sepEndBy (argument r) comma)
  return (args.filterMap Argument.positional?, args.filterMap Argument.keyword?)

/-- The type hint of a parameter, where there may be one. -/
def typeHint (r : ExprRules) (annotated : Bool) : Parser (Option Expr) :=
  if annotated then opt (do symbol .colon; r.expr) else return none

/-- One item of a parameter list. -/
def paramItem (r : ExprRules) (annotated : Bool) : Parser ParamItem :=
  (do
    symbol .slash
    return .slash) <|>
  (node do
    symbol .doubleStar
    let id ← name
    let hint ← typeHint r annotated
    return fun span => .param ⟨id, .kwArgs, hint, none, span⟩) <|>
  (node do
    symbol .star
    let found ← opt (do
      let id ← name
      let hint ← typeHint r annotated
      return (id, hint))
    return fun span =>
      match found with
      | some (id, hint) => .param ⟨id, .varArgs, hint, none, span⟩
      | none => .star) <|>
  (node do
    let id ← name
    let hint ← typeHint r annotated
    let default ← opt (do symbol .assign; r.expr)
    return fun span => .param ⟨id, .normal, hint, default, span⟩)

/-- A parameter list, of a function (annotated) or of a lambda. -/
def params (r : ExprRules) (annotated : Bool) : Parser (List Param) := do
  let items ← sepEndBy (paramItem r annotated) comma
  return resolveParams items

/-! ### Atoms -/

/-- What may follow the first element of a display. -/
def elementTail (r : ExprRules) : Parser ElementTail :=
  (do return .clauses (← clauses r)) <|>
  (do
    comma
    return .more (← sepEndBy (starItem r) comma)) <|>
  return .nothing

def nameAtom : Parser Expr := node do
  let id ← name
  return (.name · id)

def constantAtom : Parser Expr := node do
  let value ← satisfy fun
    | .number text => some (Constant.number text)
    | .keyword .true_ => some (.bool true)
    | .keyword .false_ => some (.bool false)
    | .keyword .none_ => some .none
    | .symbol .ellipsis => some .ellipsis
    | _ => none
  return (.constant · value)

/-- One or more string literals, which read as one. -/
def stringAtom : Parser Expr := node do
  let parts ← many1 (satisfy fun
    | .string text => some text
    | _ => none)
  return (.string · (.ofParts parts))

/-- What parentheses make of what is inside: tuples and generators take them into
their span, anything else stays as it is. -/
def parenthesized (inner : Option Expr) (span : Span) : Expr :=
  match inner with
  | none => .tuple span []
  | some (.tuple _ elts) => .tuple span elts
  | some (.generator _ elt generators) => .generator span elt generators
  | some inner => inner

/-- An element and what follows it, between parentheses. -/
def parenElements (r : ExprRules) : Parser Expr := node do
  let first ← starItem r
  let tail ← elementTail r
  return fun span =>
    match tail with
    | .clauses generators => .generator span first generators
    | .more rest => .tuple span (first :: rest)
    | .nothing => first

/-- `()`, `(yield)`, `(x for x in xs)`, `(a, b)`, or grouping. -/
def parenAtom (r : ExprRules) : Parser Expr := node do
  let inner ← bracketed .round <|
    (do return some (← yieldExpr r)) <|>
    (do return some (← parenElements r)) <|>
    return none
  return parenthesized inner

/-- `[a, b]` or `[x for x in xs]` -/
def listAtom (r : ExprRules) : Parser Expr := node do
  let inner ← bracketed .square <| opt do
    let first ← starItem r
    let tail ← elementTail r
    return (first, tail)
  return fun span =>
    match inner with
    | none => .list span []
    | some (first, .clauses generators) => .listComp span first generators
    | some (first, .more rest) => .list span (first :: rest)
    | some (first, .nothing) => .list span [first]

/-- `**value` in a dictionary display. -/
def spreadItem (r : ExprRules) : Parser DictItem := do
  symbol .doubleStar
  let value ← r.operand
  return ⟨none, value⟩

/-- `key: value` -/
def keyedItem (r : ExprRules) : Parser (Expr × Expr) := do
  let key ← r.expr
  symbol .colon
  let value ← r.expr
  return (key, value)

/-- The items after the first, if there are any. -/
def moreItems (r : ExprRules) : Parser (List DictItem) := do
  let items ← opt do
    comma
    sepEndBy (spreadItem r <|> (do
      let (key, value) ← keyedItem r
      return ⟨some key, value⟩)) comma
  return items.getD []

/-- What stands between braces. -/
def braceBody (r : ExprRules) : Parser (Span → Expr) :=
  (do
    let first ← spreadItem r
    let rest ← moreItems r
    return (.dict · (first :: rest))) <|>
  (do
    let (key, value) ← keyedItem r
    (do
      let generators ← clauses r
      return (.dictComp · key value generators)) <|>
    (do
      let rest ← moreItems r
      return (.dict · (⟨some key, value⟩ :: rest)))) <|>
  (do
    let first ← starItem r
    let tail ← elementTail r
    return fun span =>
      match tail with
      | .clauses generators => .setComp span first generators
      | .more rest => .set span (first :: rest)
      | .nothing => .set span [first]) <|>
  return (.dict · [])

/-- Displays and comprehensions of dictionaries and sets. -/
def braceAtom (r : ExprRules) : Parser Expr :=
  node (bracketed .curly (braceBody r))

def atom (r : ExprRules) : Parser Expr :=
  nameAtom <|> constantAtom <|> stringAtom <|> parenAtom r <|> listAtom r <|> braceAtom r

/-! ### Primaries and operators -/

/-- The bounds after the first colon of a slice. -/
def sliceTail (r : ExprRules) : Parser (Option Expr × Option Expr) := do
  symbol .colon
  let upper ← opt r.expr
  let step ← opt do
    symbol .colon
    opt r.expr
  return (upper, step.join)

/-- An index, a slice, or `*operand`. -/
def subscriptItem (r : ExprRules) : Parser Expr :=
  (node do
    let lower ← r.expr
    let tail ← opt (sliceTail r)
    return fun span =>
      match tail with
      | some (upper, step) => .slice span (some lower) upper step
      | none => lower) <|>
  (node do
    let (upper, step) ← sliceTail r
    return (.slice · none upper step)) <|>
  starredOperand r

/-- `.attr`, `(args)` or `[index]`, with its span. -/
def trailer (r : ExprRules) : Parser (Trailer × Span) := node do
  let trailer ←
    (do
      symbol .dot
      return .member (← name)) <|>
    (do
      let (args, keywords) ← arguments r
      return .call args keywords) <|>
    (do
      let index ← bracketed .square (exprList (subscriptItem r))
      return .index index)
  return (trailer, ·)

def primary (r : ExprRules) : Parser Expr := do
  let value ← atom r
  let trailers ← many (trailer r)
  return trailers.foldl withTrailer value

def awaitPrimary (r : ExprRules) : Parser Expr := do
  let mark ← opt (spanOf (keyword .await_))
  let value ← primary r
  return match mark with
    | some mark => .await (.cover mark value.span) value
    | none => value

/-- `base ** exponent`, where the exponent may carry a sign. -/
def power (r : ExprRules) : Parser Expr := do
  let base ← awaitPrimary r
  let exponent ← opt (do symbol .doubleStar; r.factor)
  return match exponent with
    | some exponent => binary base .pow exponent
    | none => base

/-- A sign and its operand. -/
def signed (r : ExprRules) : Parser Expr := do
  let (op, mark) ← node do
    let op ← satisfy fun
      | .symbol .minus => some UnaryOp.minus
      | .symbol .plus => some .plus
      | .symbol .tilde => some .invert
      | _ => none
    return (op, ·)
  let operand ← r.factor
  return .unaryOp (.cover mark operand.span) op operand

/-- Operators of one level, grouping to the left. -/
def binaryLevel (operand : Parser Expr) (op? : Token → Option BinOp) : Parser Expr := do
  let left ← operand
  let rest ← many do
    let op ← satisfy op?
    let right ← operand
    return (op, right)
  return rest.foldl (fun left (op, right) => binary left op right) left

def product? : Token → Option BinOp
  | .symbol .star => some .mult
  | .symbol .slash => some .div
  | .symbol .doubleSlash => some .floorDiv
  | .symbol .percent => some .mod
  | .symbol .atSign => some .matMult
  | _ => none

def sum? : Token → Option BinOp
  | .symbol .plus => some .add
  | .symbol .minus => some .sub
  | _ => none

def shift? : Token → Option BinOp
  | .symbol .lShift => some .lShift
  | .symbol .rShift => some .rShift
  | _ => none

def bitAnd? : Token → Option BinOp
  | .symbol .amp => some .bitAnd
  | _ => none

def bitXor? : Token → Option BinOp
  | .symbol .caret => some .bitXor
  | _ => none

def bitOr? : Token → Option BinOp
  | .symbol .pipe => some .bitOr
  | _ => none

def product (r : ExprRules) : Parser Expr := binaryLevel r.factor product?
def sum (r : ExprRules) : Parser Expr := binaryLevel (product r) sum?
def shift (r : ExprRules) : Parser Expr := binaryLevel (sum r) shift?
def bitAnd (r : ExprRules) : Parser Expr := binaryLevel (shift r) bitAnd?
def bitXor (r : ExprRules) : Parser Expr := binaryLevel (bitAnd r) bitXor?
def bitOr (r : ExprRules) : Parser Expr := binaryLevel (bitXor r) bitOr?

/-! ### Comparisons and truth -/

/-- A comparison; `not in` and `is not` are two tokens. -/
def cmpOp : Parser CmpOp :=
  (do
    keyword .not_
    keyword .in_
    return .notIn) <|>
  (do
    keyword .is_
    keyword .not_
    return .isNot) <|>
  satisfy fun
    | .symbol .eqEq => some .eq
    | .symbol .notEq => some .notEq
    | .symbol .lt => some .lt
    | .symbol .ltEq => some .ltE
    | .symbol .gt => some .gt
    | .symbol .gtEq => some .gtE
    | .keyword .is_ => some .is
    | .keyword .in_ => some .in
    | _ => none

def comparison (r : ExprRules) : Parser Expr := do
  let left ← r.operand
  let rest ← many do
    let op ← cmpOp
    let right ← r.operand
    return (op, right)
  return comparisonOf left rest

def notTest (r : ExprRules) : Parser Expr := do
  let marks ← many (spanOf (keyword .not_))
  let operand ← comparison r
  return marks.foldr
    (fun mark operand => .unaryOp (.cover mark operand.span) .not operand) operand

def andTest (r : ExprRules) : Parser Expr := do
  let left ← notTest r
  let rest ← many (do keyword .and_; notTest r)
  return rest.foldl (chain .and) left

def orTest (r : ExprRules) : Parser Expr := do
  let left ← andTest r
  let rest ← many (do keyword .or_; andTest r)
  return rest.foldl (chain .or) left

/-- `body if test else orElse` -/
def conditional (r : ExprRules) : Parser Expr := do
  let body ← orTest r
  let tail ← opt do
    keyword .if_
    let test ← orTest r
    keyword .else_
    let orElse ← r.expr
    return (test, orElse)
  return match tail with
    | some (test, orElse) => .conditional (.cover body.span orElse.span) test body orElse
    | none => body

def lambda (r : ExprRules) : Parser Expr := node do
  keyword .lambda_
  let params ← params r false
  symbol .colon
  let body ← r.expr
  return (.lambda · params body)

/-- `name := value` -/
def namedExpr (r : ExprRules) : Parser Expr := node do
  let target ← nameAtom
  symbol .walrus
  let value ← r.expr
  return (.named · target value)

/-! ### The rules, unrolled -/

/-- Each rule in terms of the three. -/
def unroll (r : ExprRules) : ExprRules where
  expr := namedExpr r <|> lambda r <|> conditional r
  operand := bitOr r
  factor := signed r <|> power r

end Grammar

/-- The rules unrolled a number of times; what would need one more turn fails. -/
def ExprRules.upTo : Nat → ExprRules
  | 0 => ⟨Parser.fail, Parser.fail, Parser.fail⟩
  | n + 1 => Grammar.unroll (ExprRules.upTo n)

end Scrutiny
