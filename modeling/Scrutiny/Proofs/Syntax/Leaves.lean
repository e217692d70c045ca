/-
The leaves of a syntax tree: the names and literals it is written with.

A leaf is kept as the token it came from.  Every identifier of a tree is a leaf,
wherever it stands: names, attributes, parameters, keywords of arguments, what is
imported, what is defined.  So is every numeral and every part of a string literal.
Operators, keywords and the constants that are keywords are not.

Leaves are counted and not ordered: a tree does not keep the order of its text.  A
dotted name is as many leaves as it has components, and the `*` of an import is none.

An expression has its leaves by recursion (`Expr.leaves`).  A statement has its own,
outside the statements inside it (`Stmt.ownLeaves`), and a module has those of all
its statements.
-/
import Mathlib.Algebra.BigOperators.Group.Multiset.Basic
import Mathlib.Algebra.Order.Group.Multiset
import Scrutiny.Syntax.Stmt
import Scrutiny.Token.Basic

namespace Scrutiny

/-! ### Names and literals -/

/-- Whether a token is a name or a literal. -/
def Token.isLeaf : Token → Bool
  | .name _ | .number _ | .string _ => true
  | _ => false

/-- The names and literals among some tokens. -/
def literals (tokens : List Lexeme) : Multiset Token :=
  ↑((tokens.map (·.token)).filter Token.isLeaf)

@[simp] theorem literals_nil : literals [] = 0 := rfl

@[simp] theorem literals_append (xs ys : List Lexeme) :
    literals (xs ++ ys) = literals xs + literals ys := by
  simp [literals]

theorem sum_map_singleton {α : Type} (f : α → Token) (xs : List α) :
    (xs.map fun x => ({f x} : Multiset Token)).sum = ↑(xs.map f) := by
  simpa [Function.comp_def] using Multiset.sum_map_singleton (↑(xs.map f) : Multiset Token)

/-- The leaves of a constant: a numeral is one. -/
def Constant.leaves : Constant → Multiset Token
  | .number text => {.number text}
  | _ => 0

/-- The leaves of a string literal: its parts. -/
def StringLiteral.leaves (literal : StringLiteral) : Multiset Token :=
  ↑(literal.parts.map Token.string)

/-- The leaf that a component of a dotted name is. -/
def componentLeaves (component : List Char) : Multiset Token :=
  if component = ['*'] then 0 else {.name (String.ofList component)}

/-- The leaves of a dotted name: its components. -/
def dottedLeaves (text : String) : Multiset Token :=
  ((text.toList.splitOn '.').map componentLeaves).sum

/-- The leaves of a name put together from dotted names. -/
theorem dottedLeaves_intercalate (text : String) (texts : List String) :
    dottedLeaves (".".intercalate (text :: texts)) =
      ((text :: texts).map dottedLeaves).sum := by
  induction texts generalizing text with
  | nil => simp
  | cons next texts ih =>
    have hsplit : (text ++ "." ++ ".".intercalate (next :: texts)).toList =
        text.toList ++ '.' :: (".".intercalate (next :: texts)).toList := by simp
    rw [List.map_cons, List.sum_cons, ← ih, String.intercalate_cons_cons, dottedLeaves, hsplit,
      List.splitOn_append_cons_self, List.map_append, List.sum_append, dottedLeaves,
      dottedLeaves]

/-! ### Expressions -/

mutual

/-- The leaves of an expression. -/
def Expr.leaves : Expr → Multiset Token
  | .name _ id => {.name id}
  | .constant _ value => value.leaves
  | .string _ literal => literal.leaves
  | .boolOp _ _ values => leavesAll values
  | .binOp _ left _ right => left.leaves + right.leaves
  | .unaryOp _ _ operand => operand.leaves
  | .compare _ left _ comparators => left.leaves + leavesAll comparators
  | .lambda _ params body => paramLeaves params + body.leaves
  | .conditional _ test body orElse => test.leaves + body.leaves + orElse.leaves
  | .named _ target value => target.leaves + value.leaves
  | .call _ func args keywords => func.leaves + leavesAll args + keywordLeaves keywords
  | .member _ value attr => value.leaves + {.name attr}
  | .subscript _ value index => value.leaves + index.leaves
  | .slice _ lower upper step => leavesOpt lower + leavesOpt upper + leavesOpt step
  | .starred _ value => value.leaves
  | .list _ elts => leavesAll elts
  | .tuple _ elts => leavesAll elts
  | .set _ elts => leavesAll elts
  | .dict _ items => itemLeaves items
  | .listComp _ elt clauses => elt.leaves + clauseLeaves clauses
  | .setComp _ elt clauses => elt.leaves + clauseLeaves clauses
  | .generator _ elt clauses => elt.leaves + clauseLeaves clauses
  | .dictComp _ key value clauses => key.leaves + value.leaves + clauseLeaves clauses
  | .await _ value => value.leaves
  | .yield _ value => leavesOpt value
  | .yieldFrom _ value => value.leaves

/-- The leaves of some expressions. -/
def leavesAll : List Expr → Multiset Token
  | [] => 0
  | e :: es => e.leaves + leavesAll es

/-- The leaves of an expression that may be missing. -/
def leavesOpt : Option Expr → Multiset Token
  | none => 0
  | some e => e.leaves

/-- The leaves of a parameter: its name, and those of its hint and default. -/
def Param.leaves : Param → Multiset Token
  | ⟨name, _, hint, default, _⟩ => {.name name} + leavesOpt hint + leavesOpt default

/-- The leaves of some parameters. -/
def paramLeaves : List Param → Multiset Token
  | [] => 0
  | p :: ps => p.leaves + paramLeaves ps

/-- The leaves of a keyword argument: its name, if it has one, and those of its value. -/
def KeywordArg.leaves : KeywordArg → Multiset Token
  | ⟨none, value⟩ => value.leaves
  | ⟨some arg, value⟩ => {.name arg} + value.leaves

/-- The leaves of some keyword arguments. -/
def keywordLeaves : List KeywordArg → Multiset Token
  | [] => 0
  | k :: ks => k.leaves + keywordLeaves ks

/-- The leaves of an item of a dictionary. -/
def DictItem.leaves : DictItem → Multiset Token
  | ⟨key, value⟩ => leavesOpt key + value.leaves

/-- The leaves of some items of a dictionary. -/
def itemLeaves : List DictItem → Multiset Token
  | [] => 0
  | i :: is => i.leaves + itemLeaves is

/-- The leaves of a clause of a comprehension. -/
def Comprehension.leaves : Comprehension → Multiset Token
  | ⟨target, iter, conditions, _⟩ => target.leaves + iter.leaves + leavesAll conditions

/-- The leaves of some clauses of a comprehension. -/
def clauseLeaves : List Comprehension → Multiset Token
  | [] => 0
  | c :: cs => c.leaves + clauseLeaves cs

end

attribute [simp] Expr.leaves Param.leaves KeywordArg.leaves DictItem.leaves Comprehension.leaves

/-! ### Lists of parts are sums -/

@[simp] theorem leavesOpt_eq (value : Option Expr) :
    leavesOpt value = value.elim 0 Expr.leaves := by
  cases value with
  | none => rw [leavesOpt, Option.elim]
  | some e => rw [leavesOpt, Option.elim]

@[simp] theorem leavesAll_eq (es : List Expr) : leavesAll es = (es.map Expr.leaves).sum := by
  induction es with
  | nil => simp [leavesAll]
  | cons e es ih => simp [leavesAll, ih]

@[simp] theorem paramLeaves_eq (ps : List Param) : paramLeaves ps = (ps.map Param.leaves).sum := by
  induction ps with
  | nil => simp [paramLeaves]
  | cons p ps ih => simp [paramLeaves, ih]

@[simp] theorem keywordLeaves_eq (ks : List KeywordArg) :
    keywordLeaves ks = (ks.map KeywordArg.leaves).sum := by
  induction ks with
  | nil => simp [keywordLeaves]
  | cons k ks ih => simp [keywordLeaves, ih]

@[simp] theorem itemLeaves_eq (is : List DictItem) :
    itemLeaves is = (is.map DictItem.leaves).sum := by
  induction is with
  | nil => simp [itemLeaves]
  | cons i is ih => simp [itemLeaves, ih]

@[simp] theorem clauseLeaves_eq (cs : List Comprehension) :
    clauseLeaves cs = (cs.map Comprehension.leaves).sum := by
  induction cs with
  | nil => simp [clauseLeaves]
  | cons c cs ih => simp [clauseLeaves, ih]

/-! ### Statements and modules -/

/-- The leaves of an imported name: its components, and what it is imported as. -/
def Alias.leaves (a : Alias) : Multiset Token :=
  dottedLeaves a.name + a.asName.elim 0 fun name => {.name name}

/-- The leaves of an item of a `with`. -/
def WithItem.leaves (item : WithItem) : Multiset Token :=
  item.context.leaves + leavesOpt item.vars

/-- The leaves of a type parameter: its name and those of its bound. -/
def TypeParam.leaves (p : TypeParam) : Multiset Token :=
  {.name p.name} + leavesOpt p.bound

/-- The leaves of the head of a handler: of what it catches, and what it names it. -/
def Handler.headLeaves (h : Handler) : Multiset Token :=
  leavesOpt h.type + h.name.elim 0 fun name => {.name name}

/-- The leaves of the head of a case clause. -/
def MatchCase.headLeaves (c : MatchCase) : Multiset Token :=
  c.pattern.leaves + leavesOpt c.binding + leavesOpt c.guard

/-- The leaves of a function outside its block. -/
def FunctionDef.headLeaves (f : FunctionDef) : Multiset Token :=
  leavesAll f.decorators + {.name f.name} + (f.typeParams.map TypeParam.leaves).sum +
    paramLeaves f.params + leavesOpt f.returns

/-- The leaves of a class outside its block. -/
def ClassDef.headLeaves (c : ClassDef) : Multiset Token :=
  leavesAll c.decorators + {.name c.name} + (c.typeParams.map TypeParam.leaves).sum +
    leavesAll c.bases + keywordLeaves c.keywords

/-- The leaves of a statement outside the statements inside it. -/
def Stmt.ownLeaves : Stmt → Multiset Token
  | .expr _ value => value.leaves
  | .assign _ targets value => leavesAll targets + value.leaves
  | .augAssign _ target _ value => target.leaves + value.leaves
  | .annAssign _ target hint value => target.leaves + hint.leaves + leavesOpt value
  | .pass_ _ | .break_ _ | .continue_ _ => 0
  | .return_ _ value => leavesOpt value
  | .raise_ _ exc cause => leavesOpt exc + leavesOpt cause
  | .delete_ _ targets => leavesAll targets
  | .assert_ _ test msg => test.leaves + leavesOpt msg
  | .global_ _ names | .nonlocal_ _ names => ↑(names.map Token.name)
  | .import_ _ names => (names.map Alias.leaves).sum
  | .importFrom _ module _ names => module.elim 0 dottedLeaves + (names.map Alias.leaves).sum
  | .if_ _ test _ _ | .while_ _ test _ _ => test.leaves
  | .for_ _ target iter _ _ _ => target.leaves + iter.leaves
  | .try_ _ _ handlers _ _ => (handlers.map Handler.headLeaves).sum
  | .with_ _ items _ _ => (items.map WithItem.leaves).sum
  | .match_ _ subject cases => subject.leaves + (cases.map MatchCase.headLeaves).sum
  | .typeAlias _ name typeParams value =>
    name.leaves + (typeParams.map TypeParam.leaves).sum + value.leaves
  | .function _ definition => definition.headLeaves
  | .class_ _ definition => definition.headLeaves

/-- The names that tell what a statement is, and are reserved only there. -/
def Stmt.softWords : Stmt → Multiset Token
  | .match_ _ _ cases => {.name "match"} + cases.length • {.name "case"}
  | .typeAlias .. => {.name "type"}
  | _ => 0

/-- The type parameters that a statement declares. -/
def Stmt.typeParams : Stmt → List TypeParam
  | .typeAlias _ _ typeParams _ => typeParams
  | .function _ definition => definition.typeParams
  | .class_ _ definition => definition.typeParams
  | _ => []

namespace Module

/-- The names and literals of a module. -/
def leaves (module : Module) : Multiset Token :=
  ((allStmts module.body).map Stmt.ownLeaves).sum

/-- The words of a module that only tell what statement it is. -/
def softWords (module : Module) : Multiset Token :=
  ((allStmts module.body).map Stmt.softWords).sum

/-- The type parameters declared anywhere in a module. -/
def typeParams (module : Module) : Multiset TypeParam :=
  ↑((allStmts module.body).flatMap Stmt.typeParams)

end Module

end Scrutiny
