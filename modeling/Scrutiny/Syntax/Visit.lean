/-
Visiting a syntax tree in the order of evaluation.

The visits to a tree are a list.  A value is visited before the targets that take
it, an iterable before the target of its loop, a comprehension's clauses before
its element.  An expression is visited in the role it plays where it stands: as a
value, as a target, or as a pattern.  The parts of a target that are read are
values: `a[i] = v` reads `a` and `i`.  A pattern splits into captures, which are
targets, and what the subject is compared with, which are values.

An expression that cannot be a target or a pattern is visited in that role first
and then as a value.
-/
import Scrutiny.Syntax.Stmt

namespace Scrutiny

/-- What an expression is where it stands. -/
inductive Role where
  | value
  | target
  | pattern
deriving DecidableEq, Repr

/-- One step of the traversal of a tree. -/
inductive Visit where
  /-- Before everything inside a statement. -/
  | enter (stmt : Stmt)
  /-- After everything inside a statement. -/
  | leave (stmt : Stmt)
  | expr (role : Role) (expr : Expr)
  | param (param : Param)
  | handler (handler : Handler)

/-- The visits to an expression that is a value by its form: `inner` are the visits
to its parts. -/
def asValue (role : Role) (e : Expr) (inner : List Visit) : List Visit :=
  match role with
  | .value => .expr .value e :: inner
  | role => .expr role e :: .expr .value e :: inner

mutual

/-- The visits to an expression in a role. -/
def Expr.visits : Role → Expr → List Visit
  | .pattern, e@(.name ..) => [.expr .pattern e, .expr .target e]
  | role, e@(.name ..) => [.expr role e]
  | role, e@(.constant ..) => asValue role e []
  | role, e@(.string ..) => asValue role e []
  | role, e@(.boolOp _ _ values) => asValue role e (visitsAll .value values)
  | role, e@(.binOp _ left op right) =>
    if role = .pattern ∧ op = .bitOr then
      .expr role e :: (left.visits role ++ right.visits role)
    else
      asValue role e (left.visits .value ++ right.visits .value)
  | role, e@(.unaryOp _ _ operand) => asValue role e (operand.visits .value)
  | role, e@(.compare _ left _ comparators) =>
    asValue role e (left.visits .value ++ visitsAll .value comparators)
  | role, e@(.lambda _ params body) =>
    asValue role e (paramVisits params ++ body.visits .value)
  | role, e@(.conditional _ test body orElse) =>
    asValue role e (test.visits .value ++ body.visits .value ++ orElse.visits .value)
  | role, e@(.named _ target value) =>
    asValue role e (value.visits .value ++ target.visits .target)
  | .pattern, e@(.call _ func args keywords) =>
    .expr .pattern e ::
      (func.visits .value ++ visitsAll .pattern args ++ keywordVisits .pattern keywords)
  | role, e@(.call _ func args keywords) =>
    asValue role e
      (func.visits .value ++ visitsAll .value args ++ keywordVisits .value keywords)
  | .target, e@(.member _ value _) => .expr .target e :: value.visits .value
  | role, e@(.member _ value _) => asValue role e (value.visits .value)
  | .target, e@(.subscript _ value index) =>
    .expr .target e :: (value.visits .value ++ index.visits .value)
  | role, e@(.subscript _ value index) =>
    asValue role e (value.visits .value ++ index.visits .value)
  | role, e@(.slice _ lower upper step) =>
    asValue role e (visitsOpt lower ++ visitsOpt upper ++ visitsOpt step)
  | role, e@(.starred _ value) => .expr role e :: value.visits role
  | role, e@(.list _ elts) => .expr role e :: visitsAll role elts
  | role, e@(.tuple _ elts) => .expr role e :: visitsAll role elts
  | role, e@(.set _ elts) => asValue role e (visitsAll .value elts)
  | .pattern, e@(.dict _ items) => .expr .pattern e :: itemVisits .pattern items
  | role, e@(.dict _ items) => asValue role e (itemVisits .value items)
  | role, e@(.listComp _ elt clauses) =>
    asValue role e (clauseVisits clauses ++ elt.visits .value)
  | role, e@(.setComp _ elt clauses) =>
    asValue role e (clauseVisits clauses ++ elt.visits .value)
  | role, e@(.generator _ elt clauses) =>
    asValue role e (clauseVisits clauses ++ elt.visits .value)
  | role, e@(.dictComp _ key value clauses) =>
    asValue role e (clauseVisits clauses ++ key.visits .value ++ value.visits .value)
  | role, e@(.await _ value) => asValue role e (value.visits .value)
  | role, e@(.yield _ value) => asValue role e (visitsOpt value)
  | role, e@(.yieldFrom _ value) => asValue role e (value.visits .value)

/-- The visits to some expressions in one role. -/
def visitsAll : Role → List Expr → List Visit
  | _, [] => []
  | role, e :: es => e.visits role ++ visitsAll role es

/-- The visits to a value that may be missing. -/
def visitsOpt : Option Expr → List Visit
  | none => []
  | some e => e.visits .value

/-- The visits to parameters: each, its hint, its default. -/
def paramVisits : List Param → List Visit
  | [] => []
  | p :: ps => p.visits ++ paramVisits ps

/-- The visits to one parameter. -/
def Param.visits : Param → List Visit
  | p@⟨_, _, hint, default, _⟩ => .param p :: (visitsOpt hint ++ visitsOpt default)

/-- The visits to the values of keyword arguments. -/
def keywordVisits : Role → List KeywordArg → List Visit
  | _, [] => []
  | role, ⟨_, value⟩ :: rest => value.visits role ++ keywordVisits role rest

/-- The visits to the items of a dictionary; keys are values. -/
def itemVisits : Role → List DictItem → List Visit
  | _, [] => []
  | role, ⟨key, value⟩ :: rest => visitsOpt key ++ value.visits role ++ itemVisits role rest

/-- The visits to the clauses of a comprehension. -/
def clauseVisits : List Comprehension → List Visit
  | [] => []
  | ⟨target, iter, conditions, _⟩ :: rest =>
    iter.visits .value ++ target.visits .target ++ visitsAll .value conditions ++
      clauseVisits rest

end

/-- The visits to the bounds of type parameters. -/
def boundVisits (params : List TypeParam) : List Visit :=
  params.flatMap fun p => visitsOpt p.bound

/-- The visits to the items of a `with`. -/
def withItemVisits (items : List WithItem) : List Visit :=
  items.flatMap fun item =>
    item.context.visits .value ++
      match item.vars with
      | some vars => vars.visits .target
      | none => []

/-- The visits to what may stand between a pattern and its block. -/
def bindingVisits : Option Expr → List Visit
  | some binding => binding.visits .target
  | none => []

/-- The visits to a statement whose inside gives the visits `inner`; none if `into`
refuses it. -/
def framed (into : Stmt → Bool) (s : Stmt) (inner : List Visit) : List Visit :=
  if into s then .enter s :: (inner ++ [.leave s]) else []

mutual

/-- The visits to a statement and what is inside it; none if `into` refuses it. -/
def Stmt.visits (into : Stmt → Bool) : Stmt → List Visit
  | s@(.expr _ value) => framed into s (value.visits .value)
  | s@(.assign _ targets value) =>
    framed into s (value.visits .value ++ visitsAll .target targets)
  | s@(.augAssign _ target _ value) =>
    framed into s (value.visits .value ++ target.visits .target)
  | s@(.annAssign _ target hint value) =>
    framed into s (hint.visits .value ++ visitsOpt value ++ target.visits .target)
  | s@(.return_ _ value) => framed into s (visitsOpt value)
  | s@(.raise_ _ exc cause) => framed into s (visitsOpt exc ++ visitsOpt cause)
  | s@(.delete_ _ targets) => framed into s (visitsAll .target targets)
  | s@(.assert_ _ test msg) => framed into s (test.visits .value ++ visitsOpt msg)
  | s@(.if_ _ test body orElse) =>
    framed into s (test.visits .value ++ blockVisits into body ++ blockVisits into orElse)
  | s@(.while_ _ test body orElse) =>
    framed into s (test.visits .value ++ blockVisits into body ++ blockVisits into orElse)
  | s@(.for_ _ target iter body orElse _) =>
    framed into s (iter.visits .value ++ target.visits .target ++ blockVisits into body ++
      blockVisits into orElse)
  | s@(.try_ _ body handlers orElse finalBody) =>
    framed into s (blockVisits into body ++ handlerVisits into handlers ++
      blockVisits into orElse ++ blockVisits into finalBody)
  | s@(.with_ _ items body _) =>
    framed into s (withItemVisits items ++ blockVisits into body)
  | s@(.match_ _ subject cases) =>
    framed into s (subject.visits .value ++ caseVisits into cases)
  | s@(.typeAlias _ name typeParams value) =>
    framed into s (boundVisits typeParams ++ value.visits .value ++ name.visits .target)
  | s@(.function _ definition) => framed into s (definition.visits into)
  | s@(.class_ _ definition) => framed into s (definition.visits into)
  | s => framed into s []

/-- The visits to a block. -/
def blockVisits (into : Stmt → Bool) : List Stmt → List Visit
  | [] => []
  | s :: rest => s.visits into ++ blockVisits into rest

/-- The visits to handlers: each, its type, its block. -/
def handlerVisits (into : Stmt → Bool) : List Handler → List Visit
  | [] => []
  | h@⟨type, _, _, body, _⟩ :: rest =>
    .handler h :: (visitsOpt type ++ blockVisits into body ++ handlerVisits into rest)

/-- The visits to case clauses: pattern, binding, guard, block. -/
def caseVisits (into : Stmt → Bool) : List MatchCase → List Visit
  | [] => []
  | ⟨pattern, binding, guard, body, _⟩ :: rest =>
    pattern.visits .pattern ++ bindingVisits binding ++ visitsOpt guard ++
      blockVisits into body ++ caseVisits into rest

/-- The visits to a function: decorators, bounds, parameters, result, block. -/
def FunctionDef.visits (into : Stmt → Bool) : FunctionDef → List Visit
  | ⟨_, typeParams, params, returns, body, decorators, _⟩ =>
    visitsAll .value decorators ++ boundVisits typeParams ++ paramVisits params ++
      visitsOpt returns ++ blockVisits into body

/-- The visits to a class: decorators, bounds, bases, keywords, block. -/
def ClassDef.visits (into : Stmt → Bool) : ClassDef → List Visit
  | ⟨_, typeParams, bases, keywords, body, decorators⟩ =>
    visitsAll .value decorators ++ boundVisits typeParams ++ visitsAll .value bases ++
      keywordVisits .value keywords ++ blockVisits into body

end

/-- The visits to a whole module. -/
def Module.visits (module : Module) : List Visit :=
  blockVisits (fun _ => true) module.body

/-- The expression visited as a value, if the visit is to one. -/
def Visit.value? : Visit → Option Expr
  | .expr .value e => some e
  | _ => none

/-- Every expression of a module that is a value, in order of visit. -/
def Module.values (module : Module) : List Expr :=
  module.visits.filterMap Visit.value?

end Scrutiny
