/-
Expressions.

Every node carries the span of the text it came from; parentheses that only group
are not part of it.  Targets of assignments and patterns of case clauses are
expressions too, told apart by where they stand.
-/
import Scrutiny.Syntax.Literal
import Scrutiny.Syntax.Operator
import Scrutiny.Text.Span

namespace Scrutiny

/-- How arguments reach a parameter. -/
inductive ParamKind where
  /-- Before a `/` marker. -/
  | positionalOnly
  | normal
  /-- `*args` -/
  | varArgs
  /-- After `*` or `*args`. -/
  | keywordOnly
  /-- `**kwargs` -/
  | kwArgs
deriving DecidableEq, Repr

mutual

/-- An expression. -/
inductive Expr where
  | name (span : Span) (id : String)
  | constant (span : Span) (value : Constant)
  | string (span : Span) (literal : StringLiteral)
  /-- `a and b and c`: a chain of one operator is one node. -/
  | boolOp (span : Span) (op : BoolOp) (values : List Expr)
  | binOp (span : Span) (left : Expr) (op : BinOp) (right : Expr)
  | unaryOp (span : Span) (op : UnaryOp) (operand : Expr)
  /-- `a < b <= c`, with one operator per comparator. -/
  | compare (span : Span) (left : Expr) (ops : List CmpOp) (comparators : List Expr)
  | lambda (span : Span) (params : List Param) (body : Expr)
  /-- `body if test else orElse` -/
  | conditional (span : Span) (test body orElse : Expr)
  /-- `target := value` -/
  | named (span : Span) (target value : Expr)
  | call (span : Span) (func : Expr) (args : List Expr) (keywords : List KeywordArg)
  /-- `value.attr` -/
  | member (span : Span) (value : Expr) (attr : String)
  | subscript (span : Span) (value index : Expr)
  | slice (span : Span) (lower upper step : Option Expr)
  | starred (span : Span) (value : Expr)
  | list (span : Span) (elts : List Expr)
  | tuple (span : Span) (elts : List Expr)
  | set (span : Span) (elts : List Expr)
  | dict (span : Span) (items : List DictItem)
  | listComp (span : Span) (elt : Expr) (clauses : List Comprehension)
  | setComp (span : Span) (elt : Expr) (clauses : List Comprehension)
  | generator (span : Span) (elt : Expr) (clauses : List Comprehension)
  | dictComp (span : Span) (key value : Expr) (clauses : List Comprehension)
  | await (span : Span) (value : Expr)
  | yield (span : Span) (value : Option Expr)
  | yieldFrom (span : Span) (value : Expr)

/-- A parameter of a function or lambda. -/
structure Param where
  name : String
  kind : ParamKind
  /-- The type hint. -/
  hint : Option Expr
  default : Option Expr
  span : Span

/-- `arg=value`, or `**value` without a name. -/
structure KeywordArg where
  arg : Option String
  value : Expr

/-- `key: value`, or `**value` without a key. -/
structure DictItem where
  key : Option Expr
  value : Expr

/-- One `for target in iter if cond` clause of a comprehension. -/
structure Comprehension where
  target : Expr
  iter : Expr
  conditions : List Expr
  isAsync : Bool

end

namespace Expr

/-- The text an expression came from. -/
def span : Expr → Span
  | name s _ | constant s _ | string s _ | boolOp s _ _ | binOp s _ _ _ | unaryOp s _ _
  | compare s _ _ _ | lambda s _ _ | conditional s _ _ _ | named s _ _ | call s _ _ _
  | member s _ _ | subscript s _ _ | slice s _ _ _ | starred s _ | list s _ | tuple s _
  | set s _ | dict s _ | listComp s _ _ | setComp s _ _ | generator s _ _ | dictComp s _ _ _
  | await s _ | yield s _ | yieldFrom s _ => s

/-- The identifier, if the expression is just a name. -/
def name? : Expr → Option String
  | name _ id => some id
  | _ => none

/-- The dotted path of a name or a chain of attributes of one: `os.path.join`. -/
def dottedName? : Expr → Option String
  | name _ id => some id
  | member _ value attr => value.dottedName?.map (· ++ "." ++ attr)
  | _ => none

/-- Whether the expression is `True` or an integer numeral other than zero. -/
def isAlwaysTrue : Expr → Bool
  | constant _ (.bool value) => value
  | constant _ (.number text) => (intValue? text).any (· != 0)
  | _ => false

/-- What to call an expression that cannot be assigned to. -/
def describe : Expr → String
  | name .. => "name"
  | constant _ (.bool true) => "True"
  | constant _ (.bool false) => "False"
  | constant _ .none => "None"
  | constant _ .ellipsis => "ellipsis"
  | constant _ (.number _) | string .. => "literal"
  | boolOp .. | binOp .. | unaryOp .. => "expression"
  | compare .. => "comparison"
  | lambda .. => "lambda"
  | conditional .. => "conditional expression"
  | named .. => "named expression"
  | call .. => "function call"
  | member .. => "attribute"
  | subscript .. => "subscript"
  | slice .. => "slice"
  | starred .. => "starred"
  | list .. => "list"
  | tuple .. => "tuple"
  | set .. => "set display"
  | dict .. => "dict literal"
  | listComp .. => "list comprehension"
  | setComp .. => "set comprehension"
  | generator .. => "generator expression"
  | dictComp .. => "dict comprehension"
  | await .. => "await expression"
  | yield .. | yieldFrom .. => "yield expression"

end Expr

end Scrutiny
