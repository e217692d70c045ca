/-
Names that are read before anything binds them.

A module is read as a sequence of events: a name is bound, or a name is loaded.
There is one scope for the whole module, so that a name bound anywhere earlier in
the sequence counts as bound.  Imports and definitions at top level are bound before
everything else.  A function's body is read after everything that was waiting before
it, since it only runs once it is called: bodies wait in a queue, first come, first
served.

Type hints, values of type aliases and bounds are not read, as they often refer to
what comes later; nor are the names that a pattern compares with.
-/
import Scrutiny.Check.Basic
import Scrutiny.Check.Names.Builtin
import Scrutiny.Syntax.Target

namespace Scrutiny

/-- What happens to a name, or a body that is to be read later. -/
inductive NameEvent where
  | bind (name : String)
  | load (name : String) (offset : Nat)
  | later (body : List Stmt)

namespace NameEvent

/-- How an expression is read: as the tree has it, and whether inside a pattern,
where names are not loaded. -/
structure Mode where
  role : Role
  inPattern : Bool

/-- Reading a value outside patterns. -/
def Mode.plain : Mode := ⟨.value, false⟩

/-- The same place, read as a value. -/
def Mode.value (mode : Mode) : Mode := { mode with role := .value }

/-- The same place, read as a target. -/
def Mode.target (mode : Mode) : Mode := { mode with role := .target }

end NameEvent

namespace NameEvent

/-- A target binds its names before its parts are read. -/
def bindsFirst (mode : Mode) (e : Expr) (inner : List NameEvent) : List NameEvent :=
  if mode.role = .target then e.targetNames.map (.bind ·.1) ++ inner else inner

end NameEvent

open NameEvent

mutual

/-- The events of an expression. -/
def Expr.nameEvents : Mode → Expr → List NameEvent
  | mode, .name span id =>
    match mode.role with
    | .value => if mode.inPattern then [] else [.load id span.start]
    | _ => [.bind id]
  | _, .constant .. => []
  | _, .string .. => []
  | mode, .boolOp _ _ values => nameEventsAll mode.value values
  | mode, .binOp _ left op right =>
    if mode.role = .pattern ∧ op = .bitOr then
      left.nameEvents mode ++ right.nameEvents mode
    else
      left.nameEvents mode.value ++ right.nameEvents mode.value
  | mode, .unaryOp _ _ operand => operand.nameEvents mode.value
  | mode, .compare _ left _ comparators =>
    left.nameEvents mode.value ++ nameEventsAll mode.value comparators
  | mode, .lambda _ params body =>
    defaultEvents mode.value params ++ params.map (.bind ·.name) ++ body.nameEvents mode.value
  | mode, .conditional _ test body orElse =>
    test.nameEvents mode.value ++ body.nameEvents mode.value ++ orElse.nameEvents mode.value
  | mode, .named _ target value =>
    value.nameEvents mode.value ++ target.nameEvents mode.target
  | mode, .call _ func args keywords =>
    let inner := if mode.role = .pattern then mode else mode.value
    func.nameEvents mode.value ++ nameEventsAll inner args ++ keywordEvents inner keywords
  | mode, .member _ value _ => value.nameEvents mode.value
  | mode, .subscript _ value index =>
    value.nameEvents mode.value ++ index.nameEvents mode.value
  | mode, .slice _ lower upper step =>
    nameEventsOpt mode.value lower ++ nameEventsOpt mode.value upper ++
      nameEventsOpt mode.value step
  | mode, e@(.starred _ value) => bindsFirst mode e (value.nameEvents mode)
  | mode, e@(.list _ elts) => bindsFirst mode e (nameEventsAll mode elts)
  | mode, e@(.tuple _ elts) => bindsFirst mode e (nameEventsAll mode elts)
  | mode, .set _ elts => nameEventsAll mode.value elts
  | mode, .dict _ items =>
    itemEvents (if mode.role = .pattern then mode else mode.value) items
  | mode, .listComp _ elt clauses => clauseEvents mode clauses ++ elt.nameEvents mode.value
  | mode, .setComp _ elt clauses => clauseEvents mode clauses ++ elt.nameEvents mode.value
  | mode, .generator _ elt clauses => clauseEvents mode clauses ++ elt.nameEvents mode.value
  | mode, .dictComp _ key value clauses =>
    clauseEvents mode clauses ++ key.nameEvents mode.value ++ value.nameEvents mode.value
  | mode, .await _ value => value.nameEvents mode.value
  | mode, .yield _ value => nameEventsOpt mode.value value
  | mode, .yieldFrom _ value => value.nameEvents mode.value

/-- The events of some expressions. -/
def nameEventsAll : Mode → List Expr → List NameEvent
  | _, [] => []
  | mode, e :: es => e.nameEvents mode ++ nameEventsAll mode es

/-- The events of an expression that may be missing. -/
def nameEventsOpt : Mode → Option Expr → List NameEvent
  | _, none => []
  | mode, some e => e.nameEvents mode

/-- The events of the defaults of parameters. -/
def defaultEvents : Mode → List Param → List NameEvent
  | _, [] => []
  | mode, ⟨_, _, _, default, _⟩ :: rest => nameEventsOpt mode default ++ defaultEvents mode rest

/-- The events of keyword arguments. -/
def keywordEvents : Mode → List KeywordArg → List NameEvent
  | _, [] => []
  | mode, ⟨_, value⟩ :: rest => value.nameEvents mode ++ keywordEvents mode rest

/-- The events of the items of a dictionary; keys are values. -/
def itemEvents : Mode → List DictItem → List NameEvent
  | _, [] => []
  | mode, ⟨key, value⟩ :: rest =>
    nameEventsOpt mode.value key ++ value.nameEvents mode ++ itemEvents mode rest

/-- The events of the clauses of a comprehension. -/
def clauseEvents : Mode → List Comprehension → List NameEvent
  | _, [] => []
  | mode, ⟨target, iter, conditions, _⟩ :: rest =>
    iter.nameEvents mode.value ++ target.nameEvents mode.target ++
      nameEventsAll mode.value conditions ++ clauseEvents mode rest

end

/-- The names that imports bind; a wildcard binds none. -/
def importedNames (names : List Alias) : List String :=
  (names.filter (·.name != "*")).map (·.boundName)

/-- The events of a target. -/
def targetEvents (e : Expr) : List NameEvent := e.nameEvents Mode.plain.target

/-- The events of the items of a `with`. -/
def withItemEvents (items : List WithItem) : List NameEvent :=
  items.flatMap fun item =>
    item.context.nameEvents .plain ++ (item.vars.map targetEvents).getD []

/-- Type parameters are bound, and their bounds are not read. -/
def typeParamEvents (params : List TypeParam) : List NameEvent :=
  params.map (.bind ·.name)

mutual

/-- The events of a statement. -/
def Stmt.nameEvents : Stmt → List NameEvent
  | .expr _ value => value.nameEvents .plain
  | .assign _ targets value =>
    value.nameEvents .plain ++ nameEventsAll Mode.plain.target targets
  | .augAssign _ target _ value => value.nameEvents .plain ++ targetEvents target
  | .annAssign _ target _ value => nameEventsOpt .plain value ++ targetEvents target
  | .pass_ _ => []
  | .break_ _ => []
  | .continue_ _ => []
  | .return_ _ value => nameEventsOpt .plain value
  | .raise_ _ exc cause => nameEventsOpt .plain exc ++ nameEventsOpt .plain cause
  | .delete_ _ targets => nameEventsAll Mode.plain.target targets
  | .assert_ _ test msg => test.nameEvents .plain ++ nameEventsOpt .plain msg
  | .global_ _ names => names.map .bind
  | .nonlocal_ _ names => names.map .bind
  | .import_ _ names => (importedNames names).map .bind
  | .importFrom _ _ _ names => (importedNames names).map .bind
  | .if_ _ test body orElse =>
    test.nameEvents .plain ++ blockNameEvents body ++ blockNameEvents orElse
  | .while_ _ test body orElse =>
    test.nameEvents .plain ++ blockNameEvents body ++ blockNameEvents orElse
  | .for_ _ target iter body orElse _ =>
    iter.nameEvents .plain ++ targetEvents target ++ blockNameEvents body ++
      blockNameEvents orElse
  | .try_ _ body handlers orElse finalBody =>
    blockNameEvents body ++ handlerNameEvents handlers ++ blockNameEvents orElse ++
      blockNameEvents finalBody
  | .with_ _ items body _ => withItemEvents items ++ blockNameEvents body
  | .match_ _ subject cases => subject.nameEvents .plain ++ caseNameEvents cases
  | .typeAlias _ name typeParams _ =>
    typeParamEvents typeParams ++ name.targetNames.map (.bind ·.1)
  | .function _ definition => definition.nameEvents
  | .class_ _ definition => definition.nameEvents

/-- The events of a block. -/
def blockNameEvents : List Stmt → List NameEvent
  | [] => []
  | s :: rest => s.nameEvents ++ blockNameEvents rest

/-- The events of handlers: type, name, block. -/
def handlerNameEvents : List Handler → List NameEvent
  | [] => []
  | ⟨type, _, name, body, _⟩ :: rest =>
    nameEventsOpt .plain type ++ name.toList.map .bind ++ blockNameEvents body ++
      handlerNameEvents rest

/-- The events of case clauses: pattern, binding, guard, block. -/
def caseNameEvents : List MatchCase → List NameEvent
  | [] => []
  | ⟨pattern, binding, guard, body, _⟩ :: rest =>
    pattern.nameEvents ⟨.pattern, true⟩ ++ (binding.map targetEvents).getD [] ++
      nameEventsOpt .plain guard ++ blockNameEvents body ++ caseNameEvents rest

/-- The events of a function: its header now, its body later. -/
def FunctionDef.nameEvents : FunctionDef → List NameEvent
  | ⟨name, typeParams, params, _, body, decorators, _⟩ =>
    nameEventsAll .plain decorators ++ defaultEvents .plain params ++
      .bind name :: typeParamEvents typeParams ++ params.map (.bind ·.name) ++ [.later body]

/-- The events of a class, its body included. -/
def ClassDef.nameEvents : ClassDef → List NameEvent
  | ⟨name, typeParams, bases, keywords, body, decorators⟩ =>
    nameEventsAll .plain decorators ++ typeParamEvents typeParams ++
      nameEventsAll .plain bases ++ keywordEvents .plain keywords ++
      .bind name :: blockNameEvents body

end

/-- The names that a top-level statement binds ahead of everything. -/
def Stmt.hoistedNames : Stmt → List String
  | .import_ _ names => importedNames names
  | .importFrom _ _ _ names => importedNames names
  | .function _ definition => [definition.name]
  | .class_ _ definition => [definition.name]
  | _ => []

namespace NameEvent

/-- The body that is to be read later, if the event says so. -/
def later? : NameEvent → Option (List Stmt)
  | later body => some body
  | _ => none

/-- The events of the bodies in a queue, those they put behind it included, for at
most `n` bodies. -/
def drain : Nat → List (List Stmt) → List NameEvent
  | 0, _ => []
  | _, [] => []
  | n + 1, body :: queue =>
    let events := blockNameEvents body
    events ++ drain n (queue ++ events.filterMap later?)

/-- The names loaded before they are bound, each with its first such load.  The
names in `bound` are bound already, those in `seen` are not to be reported again. -/
def unbound (bound seen : List String) : List NameEvent → List (String × Nat)
  | [] => []
  | .bind name :: rest => unbound (name :: bound) seen rest
  | .load name offset :: rest =>
    if bound.contains name || seen.contains name then unbound bound seen rest
    else (name, offset) :: unbound bound (name :: seen) rest
  | .later _ :: rest => unbound bound seen rest

end NameEvent

/-- All the events of a module.  Every function's body is read once, so there are as
many bodies to wait for as functions. -/
def Module.nameEvents (module : Module) : List NameEvent :=
  let top := blockNameEvents module.body
  let functions := (allStmts module.body).countP (·.function?.isSome)
  (module.body.flatMap Stmt.hoistedNames).map .bind ++ top ++
    NameEvent.drain functions (top.filterMap NameEvent.later?)

/-- The names that a module reads before anything binds them, with the offset of the
first such read. -/
def Module.undefinedNames (module : Module) : List (String × Nat) :=
  NameEvent.unbound builtinNames [] module.nameEvents

namespace Undefined

/-- Report every undefined name once. -/
def check : Check :=
  (Check.ofFindings "undefined-names" fun subject =>
    subject.tree.module.undefinedNames.map fun (name, offset) =>
      .error ((subject.diagnosticAt (subject.lineOf offset) s!"Undefined name '{name}'").suggestAll
        ([s!"Define '{name}' before using it",
          s!"Import '{name}' if it's from another module"] ++
          (typosOf name).map fun candidate =>
            s!"Did you mean '{candidate}' instead of '{name}'?"))).when
    (·.checkUndefined)

end Undefined

end Scrutiny
