/-
The walk that looks for undefined names, step by step.

The walk is the traversal of the tree with a few visits that go another way
(`visitTasks`).  It has an agenda of what is to be done next and a queue of the bodies of
functions that wait.  A step takes the first thing off the agenda, and a body off the queue
when the agenda is empty (`State.step?`); what happens to names on the way is written down.
-/
import Mathlib.Logic.Relation
import Scrutiny.Check.Names.Undefined
import Scrutiny.Proofs.Syntax.StmtOrder

namespace Scrutiny

variable {quiet quiet' : Bool} {v w : Visit}

namespace NameWalk

/-! ### The walk -/

/-- Something to do on the walk: a visit, inside a pattern (`quiet`) or not, or what happens
to a name or a body. -/
inductive Task where
  | visit (quiet : Bool) (visit : Visit)
  | event (event : NameEvent)

/-- Bind some names. -/
def binds (names : List String) : List Task := names.map fun name => .event (.bind name)

/-- Visit some places. -/
def toVisit (quiet : Bool) (visits : List Visit) : List Task := visits.map (.visit quiet)

/-- Read some values. -/
def values (quiet : Bool) (es : List Expr) : List Task := toVisit quiet (es.map (.expr .value))

/-- What an expression asks for.  A name is loaded unless it is in a pattern; a lambda binds
its parameters behind their defaults; a target binds its names before all else. -/
def exprTasks (quiet : Bool) : Role → Expr → List Task
  | .value, .name span id => if quiet then [] else [.event (.load id span.start)]
  | .value, .lambda _ params body =>
    values quiet (params.filterMap (·.default)) ++ binds (params.map (·.name)) ++
      values quiet [body]
  | .value, e => toVisit quiet e.valueInner
  | .target, e => binds (e.targetNames.map (·.1)) ++ toVisit quiet e.targetInner
  | .pattern, e => toVisit true e.patternInner

/-- What a statement asks for.  Hints, bounds and the values of aliases are left out, and the
body of a function is put off. -/
def stmtTasks : Stmt → List Task
  | .import_ _ names | .importFrom _ _ _ names => binds (importedNames names)
  | .global_ _ names | .nonlocal_ _ names => binds names
  | .annAssign _ target _ value =>
    values false value.toList ++ toVisit false [.expr .target target]
  | .typeAlias _ name typeParams _ =>
    binds (typeParams.map (·.name)) ++ binds (name.targetNames.map (·.1))
  | .function _ definition =>
    values false definition.decorators ++
      values false (definition.params.filterMap (·.default)) ++
      binds (definition.name :: definition.typeParams.map (·.name) ++
        definition.params.map (·.name)) ++
      [.event (.later definition.body)]
  | .class_ _ definition =>
    values false definition.decorators ++ binds (definition.typeParams.map (·.name)) ++
      values false definition.bases ++ values false (definition.keywords.map (·.value)) ++
      binds [definition.name] ++ toVisit false (definition.body.map .enter)
  | s => toVisit false s.inner

/-- What a visit asks for. -/
def visitTasks (quiet : Bool) : Visit → List Task
  | .enter s => stmtTasks s
  | .leave _ => []
  | .expr role e => exprTasks quiet role e
  | .param p => binds [p.name]
  | .handler h =>
    values false h.type.toList ++ binds h.name.toList ++ toVisit false (h.body.map .enter)

/-- How far a walk is. -/
structure State where
  agenda : List Task
  queue : List (List Stmt)
  /-- What happened to names so far. -/
  events : List NameEvent
  /-- The bodies taken off the queue so far. -/
  walked : List (List Stmt)

/-- One step of a walk; none if nothing is left to do. -/
def State.step? : State → Option State
  | ⟨.visit quiet v :: agenda, queue, events, walked⟩ =>
    some ⟨visitTasks quiet v ++ agenda, queue, events, walked⟩
  | ⟨.event (.later body) :: agenda, queue, events, walked⟩ =>
    some ⟨agenda, queue ++ [body], events, walked⟩
  | ⟨.event event :: agenda, queue, events, walked⟩ =>
    some ⟨agenda, queue, events ++ [event], walked⟩
  | ⟨[], body :: queue, events, walked⟩ =>
    some ⟨toVisit false (body.map .enter), queue, events, walked ++ [body]⟩
  | ⟨[], [], _, _⟩ => none

/-- A walk goes from one state to another. -/
def Leads : State → State → Prop := Relation.ReflTransGen fun a b => a.step? = some b

/-- Builtins are bound first, then what is imported and defined at top level. -/
def prelude (module : Module) : List NameEvent :=
  (builtinNames ++ module.body.flatMap Stmt.hoistedNames).map .bind

/-- The walk begins with the statements of a module. -/
def State.start (module : Module) : State :=
  ⟨toVisit false (module.body.map .enter), [], prelude module, []⟩

/-! ### The events of a visit -/

open NameEvent (Mode)

/-- How an expression is read; in a pattern no name is loaded. -/
def modeOf (quiet : Bool) : Role → Mode
  | .pattern => ⟨.pattern, true⟩
  | role => ⟨role, quiet⟩

/-- What a visit comes to, all in all. -/
def eventsOf (quiet : Bool) : Visit → List NameEvent
  | .enter s => s.nameEvents
  | .leave _ => []
  | .expr role e => e.nameEvents (modeOf quiet role)
  | .param p => [.bind p.name]
  | .handler h => handlerNameEvents [h]

/-- What a task comes to, all in all. -/
def Task.events : Task → List NameEvent
  | visit quiet v => eventsOf quiet v
  | event e => [e]

@[simp] theorem modeOf_value (quiet : Bool) : modeOf quiet .value = ⟨.value, quiet⟩ := rfl

@[simp] theorem modeOf_target (quiet : Bool) : modeOf quiet .target = ⟨.target, quiet⟩ := rfl

@[simp] theorem modeOf_pattern (quiet : Bool) : modeOf quiet .pattern = ⟨.pattern, true⟩ := rfl

section

variable (quiet : Bool)

@[simp] theorem events_binds (names : List String) :
    (binds names).flatMap Task.events = names.map .bind := by
  induction names with
  | nil => rfl
  | cons name names ih => simpa [binds, Task.events] using ih

@[simp] theorem events_toVisit (visits : List Visit) :
    (toVisit quiet visits).flatMap Task.events = visits.flatMap (eventsOf quiet) := by
  rw [toVisit, List.flatMap_map]
  rfl

@[simp] theorem eventsOf_exprs (role : Role) (es : List Expr) :
    (es.map (Visit.expr role)).flatMap (eventsOf quiet) = nameEventsAll (modeOf quiet role) es := by
  induction es with
  | nil => simp [nameEventsAll]
  | cons e es ih => simp [nameEventsAll, eventsOf, ih]

@[simp] theorem events_values (es : List Expr) :
    (values quiet es).flatMap Task.events = nameEventsAll ⟨.value, quiet⟩ es := by
  rw [values, events_toVisit, eventsOf_exprs, modeOf_value]

@[simp] theorem nameEventsAll_toList (mode : Mode) (e : Option Expr) :
    nameEventsAll mode e.toList = nameEventsOpt mode e := by
  cases e <;> simp [nameEventsAll, nameEventsOpt]

@[simp] theorem eventsOf_optional (role : Role) (e : Option Expr) :
    (optional role e).flatMap (eventsOf quiet) = nameEventsOpt (modeOf quiet role) e := by
  rw [optional, eventsOf_exprs, nameEventsAll_toList]

theorem targetEvents_getD (e : Option Expr) :
    (e.map targetEvents).getD [] = nameEventsOpt ⟨.target, false⟩ e := by
  cases e <;> simp [nameEventsOpt, targetEvents, Mode.plain, Mode.target]

@[simp] theorem nameEventsAll_defaults (mode : Mode) (params : List Param) :
    nameEventsAll mode (params.filterMap (·.default)) = defaultEvents mode params := by
  induction params with
  | nil => simp [nameEventsAll, defaultEvents]
  | cons p params ih =>
    obtain ⟨name, kind, hint, default, span⟩ := p
    cases default <;> simp [nameEventsAll, defaultEvents, nameEventsOpt, ih]

@[simp] theorem nameEventsAll_keywords (mode : Mode) (keywords : List KeywordArg) :
    nameEventsAll mode (keywords.map (·.value)) = keywordEvents mode keywords := by
  induction keywords with
  | nil => simp [nameEventsAll, keywordEvents]
  | cons keyword keywords ih =>
    obtain ⟨arg, value⟩ := keyword
    simp [nameEventsAll, keywordEvents, ih]

@[simp] theorem eventsOf_keywords (role : Role) (keywords : List KeywordArg) :
    (keywords.map (Visit.expr role ·.value)).flatMap (eventsOf quiet)
      = keywordEvents (modeOf quiet role) keywords := by
  rw [← nameEventsAll_keywords, ← eventsOf_exprs, List.map_map]
  rfl

theorem eventsOf_items {role : Role} (h : modeOf quiet role = ⟨role, quiet⟩)
    (items : List DictItem) : (items.flatMap (DictItem.inner role)).flatMap (eventsOf quiet)
      = itemEvents ⟨role, quiet⟩ items := by
  induction items with
  | nil => simp [itemEvents]
  | cons item items ih =>
    obtain ⟨key, value⟩ := item
    simp [itemEvents, DictItem.inner, eventsOf, h, ih, Mode.value]

/-- Clauses are read alike in any role. -/
@[simp] theorem clauseEvents_eq (role : Role) (clauses : List Comprehension) :
    clauseEvents ⟨role, quiet⟩ clauses
      = (clauses.flatMap Comprehension.inner).flatMap (eventsOf quiet) := by
  induction clauses with
  | nil => simp [clauseEvents]
  | cons clause clauses ih =>
    obtain ⟨target, iter, conditions, isAsync⟩ := clause
    simp [clauseEvents, Comprehension.inner, eventsOf, ih, Mode.value, Mode.target]

/-- **The events of an expression are those of what it asks for.** -/
theorem exprTasks_events (role : Role) (e : Expr) :
    (exprTasks quiet role e).flatMap Task.events = e.nameEvents (modeOf quiet role) := by
  cases role with
  | value =>
    cases e with
    | name span id => cases quiet <;> simp [exprTasks, Expr.nameEvents, Task.events]
    | lambda span params body =>
      simp [exprTasks, Expr.nameEvents, nameEventsAll, Mode.value, Function.comp_def]
    | dict span items =>
      simpa [exprTasks, Expr.valueInner, Expr.nameEvents, Mode.value] using
        eventsOf_items quiet (modeOf_value quiet) items
    | _ => simp [exprTasks, Expr.valueInner, Expr.nameEvents, eventsOf, NameEvent.bindsFirst,
        Mode.value, Mode.target]
  | target =>
    cases e <;> simp [exprTasks, Expr.targetInner, Expr.targetNames, Expr.nameEvents, eventsOf,
      NameEvent.bindsFirst, Mode.value, Mode.target]
  | pattern =>
    cases e with
    | binOp span left op right =>
      cases op <;> simp [exprTasks, Expr.patternInner, Expr.nameEvents, eventsOf, Mode.value]
    | dict span items =>
      simpa [exprTasks, Expr.patternInner, Expr.nameEvents] using
        eventsOf_items true (modeOf_pattern true) items
    | _ => simp [exprTasks, Expr.patternInner, Expr.nameEvents, eventsOf, NameEvent.bindsFirst,
        Mode.value, Mode.target]

end

/-! ### The events of a statement -/

@[simp] theorem eventsOf_block (stmts : List Stmt) :
    (stmts.map Visit.enter).flatMap (eventsOf false) = blockNameEvents stmts := by
  induction stmts with
  | nil => simp [blockNameEvents]
  | cons s stmts ih => simp [blockNameEvents, eventsOf, ih]

@[simp] theorem eventsOf_handlers (handlers : List Handler) :
    (handlers.map Visit.handler).flatMap (eventsOf false) = handlerNameEvents handlers := by
  induction handlers with
  | nil => simp [handlerNameEvents]
  | cons h handlers ih =>
    obtain ⟨type, isStar, name, body, span⟩ := h
    simp [handlerNameEvents, eventsOf, ih]

@[simp] theorem eventsOf_cases (cases : List MatchCase) :
    (cases.flatMap MatchCase.inner).flatMap (eventsOf false) = caseNameEvents cases := by
  induction cases with
  | nil => simp [caseNameEvents]
  | cons clause cases ih =>
    obtain ⟨pattern, binding, guard, body, span⟩ := clause
    simp [caseNameEvents, MatchCase.inner, eventsOf, targetEvents_getD, ih, Mode.plain]

@[simp] theorem eventsOf_withItems (items : List WithItem) :
    (items.flatMap WithItem.inner).flatMap (eventsOf false) = withItemEvents items := by
  rw [withItemEvents, List.flatMap_assoc]
  refine List.flatMap_congr fun item _ => ?_
  simp [WithItem.inner, eventsOf, targetEvents_getD, Mode.plain]

/-- **The events of a statement are those of what it asks for.** -/
theorem stmtTasks_events (s : Stmt) : (stmtTasks s).flatMap Task.events = s.nameEvents := by
  cases s with
  | function span definition =>
    obtain ⟨name, typeParams, params, returns, body, decorators, isAsync⟩ := definition
    simp [stmtTasks, Stmt.nameEvents, FunctionDef.nameEvents, typeParamEvents, Task.events,
      Mode.plain, Function.comp_def]
  | class_ span definition =>
    obtain ⟨name, typeParams, bases, keywords, body, decorators⟩ := definition
    simp [stmtTasks, Stmt.nameEvents, ClassDef.nameEvents, typeParamEvents, Mode.plain,
      Function.comp_def]
  | typeAlias span name typeParams value =>
    simp [stmtTasks, Stmt.nameEvents, typeParamEvents, Function.comp_def]
  | _ =>
    simp [stmtTasks, Stmt.inner, Stmt.nameEvents, eventsOf, targetEvents, Mode.plain, Mode.target]

/-- A visit comes to what it asks for. -/
theorem visitTasks_events (quiet : Bool) (v : Visit) :
    (visitTasks quiet v).flatMap Task.events = eventsOf quiet v := by
  cases v with
  | enter s => exact stmtTasks_events s
  | leave s => rfl
  | expr role e => exact exprTasks_events quiet role e
  | param p => simp [visitTasks, eventsOf]
  | handler h =>
    obtain ⟨type, isStar, name, body, span⟩ := h
    simp [visitTasks, eventsOf, handlerNameEvents, Mode.plain]

/-! ### A walk does what is on its agenda -/

@[simp] theorem visit_mem_binds {names : List String} : Task.visit quiet v ∉ binds names := by
  simp [binds]

@[simp] theorem visit_mem_toVisit {visits : List Visit} :
    Task.visit quiet v ∈ toVisit quiet' visits ↔ quiet' = quiet ∧ v ∈ visits := by
  simp only [toVisit, List.mem_map, Task.visit.injEq]
  constructor
  · rintro ⟨w, hw, rfl, rfl⟩
    exact ⟨rfl, hw⟩
  · rintro ⟨rfl, hv⟩
    exact ⟨v, hv, rfl, rfl⟩

/-- A visit is inside another one, or inside a parameter there. -/
def Under (v w : Visit) : Prop :=
  w ∈ v.inner ∨ ∃ p, .param p ∈ v.inner ∧ w ∈ (Visit.param p).inner

theorem Under.weight_lt (h : Under v w) : w.weight < v.weight := by
  rcases h with h | ⟨p, hp, hw⟩
  · exact Visit.weight_lt h
  · exact Nat.lt_trans (Visit.weight_lt hw) (Visit.weight_lt hp)

theorem Under.has (h : Under v w) : v.node.Has w.node := by
  rcases h with h | ⟨p, hp, hw⟩
  · exact Visit.has_of_mem_inner h
  · exact (Visit.has_of_mem_inner hp).trans (Visit.has_of_mem_inner hw)

theorem under_default {params : List Param} (hparams : ∀ p ∈ params, .param p ∈ v.inner)
    (hw : w ∈ (params.filterMap (·.default)).map (Visit.expr .value)) : Under v w := by
  obtain ⟨e, he, rfl⟩ := List.mem_map.mp hw
  obtain ⟨p, hp, hdefault⟩ := List.mem_filterMap.mp he
  exact Or.inr ⟨p, hparams p hp, by simp [Visit.inner, optional, hdefault]⟩

theorem stmtTasks_under {s : Stmt} (h : .visit quiet w ∈ stmtTasks s) : Under (.enter s) w := by
  cases s with
  | import_ | importFrom | global_ | nonlocal_ | typeAlias => simp [stmtTasks] at h
  | annAssign span target hint value =>
    refine Or.inl ?_
    simp only [stmtTasks, values, List.mem_append, visit_mem_toVisit, List.mem_singleton] at h
    simp only [Visit.inner, Stmt.inner, optional, List.cons_append, List.mem_cons, List.mem_append]
    tauto
  | function span definition =>
    simp only [stmtTasks, values, List.mem_append, visit_mem_toVisit, visit_mem_binds, or_false,
      List.mem_singleton, reduceCtorEq] at h
    rcases h with ⟨-, h⟩ | ⟨-, h⟩
    · exact Or.inl (by simp only [Visit.inner, Stmt.inner, List.mem_append]; tauto)
    · exact under_default (fun p hp => by simp [Visit.inner, Stmt.inner, hp]) h
  | class_ span definition =>
    refine Or.inl ?_
    simp only [stmtTasks, values, List.mem_append, visit_mem_toVisit, visit_mem_binds, or_false,
      List.map_map] at h
    simp only [Visit.inner, Stmt.inner, List.mem_append]
    tauto
  | _ => exact Or.inl (visit_mem_toVisit.mp h).2

theorem exprTasks_under {role : Role} {e : Expr}
    (h : .visit quiet' w ∈ exprTasks quiet role e) : Under (.expr role e) w := by
  cases role with
  | value =>
    cases e with
    | name span id => cases quiet <;> simp [exprTasks] at h
    | lambda span params body =>
      simp only [exprTasks, values, List.mem_append, visit_mem_toVisit, visit_mem_binds, or_false]
        at h
      rcases h with ⟨-, h⟩ | ⟨-, h⟩
      · exact under_default (fun p hp => by simp [Visit.inner, Expr.inner, Expr.valueInner, hp]) h
      · exact Or.inl (by
          simp only [Visit.inner, Expr.inner, Expr.valueInner, List.mem_append]; tauto)
    | _ => exact Or.inl (visit_mem_toVisit.mp h).2
  | target =>
    rcases List.mem_append.mp h with h | h
    · exact absurd h visit_mem_binds
    · exact Or.inl (visit_mem_toVisit.mp h).2
  | pattern => exact Or.inl (visit_mem_toVisit.mp h).2

/-- What a visit asks for is under it. -/
theorem visitTasks_under (h : .visit quiet' w ∈ visitTasks quiet v) : Under v w := by
  cases v with
  | enter s => exact stmtTasks_under h
  | leave s => cases h
  | expr role e => exact exprTasks_under h
  | param p => exact absurd h visit_mem_binds
  | handler handler =>
    refine Or.inl ?_
    simp only [visitTasks, values, List.mem_append, visit_mem_toVisit, visit_mem_binds,
      or_false] at h
    simp only [Visit.inner, optional, List.mem_append]
    tauto

/-- The bodies that some events put off. -/
def putOff (events : List NameEvent) : List (List Stmt) := events.filterMap NameEvent.later?

/-- Whether something happens to a name. -/
def isOfName : NameEvent → Bool
  | .later _ => false
  | _ => true

/-- A task is done, wherever it stands first on the agenda, with nothing but its events. -/
def Done (task : Task) : Prop :=
  ∀ agenda queue events walked, Leads ⟨task :: agenda, queue, events, walked⟩
    ⟨agenda, queue ++ putOff task.events, events ++ task.events.filter isOfName, walked⟩

theorem done_event (event : NameEvent) : Done (.event event) := by
  intro agenda queue events walked
  refine .single ?_
  cases event <;>
    simp [State.step?, Task.events, putOff, NameEvent.later?, List.filter_cons, isOfName]

/-- Tasks are done one after another. -/
theorem leads_of_done {tasks : List Task} (h : ∀ task ∈ tasks, Done task) (agenda : List Task)
    (queue : List (List Stmt)) (events : List NameEvent) (walked : List (List Stmt)) :
    Leads ⟨tasks ++ agenda, queue, events, walked⟩
      ⟨agenda, queue ++ putOff (tasks.flatMap Task.events),
        events ++ (tasks.flatMap Task.events).filter isOfName, walked⟩ := by
  induction tasks generalizing queue events with
  | nil =>
    simp only [List.nil_append, List.flatMap_nil, putOff, List.filterMap_nil, List.filter_nil,
      List.append_nil]
    exact .refl
  | cons task tasks ih =>
    obtain ⟨htask, htasks⟩ := List.forall_mem_cons.mp h
    have hrest := ih htasks (queue ++ putOff task.events) (events ++ task.events.filter isOfName)
    simp only [List.append_assoc, putOff, List.flatMap_cons, List.filterMap_append,
      List.filter_append] at hrest ⊢
    exact Relation.ReflTransGen.trans (htask ..) hrest

/-- **A visit is done with its events**, by what it asks for. -/
theorem done_visit (quiet : Bool) (v : Visit) : Done (.visit quiet v) := by
  intro agenda queue events walked
  have htasks : ∀ task ∈ visitTasks quiet v, Done task := by
    intro task htask
    cases task with
    | event event => exact done_event event
    | visit quiet' w => exact done_visit quiet' w
  have hleads := leads_of_done htasks agenda queue events walked
  rw [visitTasks_events] at hleads
  exact Relation.ReflTransGen.head rfl hleads
termination_by v.weight
decreasing_by exact (visitTasks_under htask).weight_lt

/-- A block is done with its events. -/
theorem leads_block (stmts : List Stmt) (queue : List (List Stmt)) (events : List NameEvent)
    (walked : List (List Stmt)) : Leads ⟨toVisit false (stmts.map .enter), queue, events, walked⟩
      ⟨[], queue ++ putOff (blockNameEvents stmts),
        events ++ (blockNameEvents stmts).filter isOfName, walked⟩ := by
  have hdone : ∀ task ∈ toVisit false (stmts.map .enter), Done task := by
    intro task htask
    obtain ⟨v, -, rfl⟩ := List.mem_map.mp htask
    exact done_visit false v
  have hleads := leads_of_done hdone [] queue events walked
  rwa [List.append_nil, events_toVisit, eventsOf_block] at hleads

/-! ### Every body is walked once -/

/-- The bodies of the functions at and inside some statements. -/
def functionBodies (stmts : List Stmt) : List (List Stmt) :=
  (allStmts stmts).filterMap fun s => s.function?.map (·.body)

/-- Bodies, each with those of the functions inside it. -/
def withInnerBodies (bodies : List (List Stmt)) : List (List Stmt) :=
  bodies.flatMap fun body => body :: functionBodies body

/-- The bodies that a task leads to, now or later. -/
def Task.bodies : Task → List (List Stmt)
  | visit _ v => functionBodies v.nearest
  | event (.later body) => body :: functionBodies body
  | event _ => []

theorem functionBodies_flatMap {α : Type} (f : α → List Stmt) (as : List α) :
    functionBodies (as.flatMap f) = as.flatMap fun a => functionBodies (f a) := by
  simp only [functionBodies, allStmts_flatMap, List.filterMap_flatMap]

theorem functionBodies_singleton (s : Stmt) :
    functionBodies [s] = (s.function?.map (·.body)).toList ++ functionBodies s.blocks.flatten := by
  rw [functionBodies, allStmts_eq_flatMap, List.flatMap_singleton, Stmt.withInner_eq,
    List.filterMap_cons]
  cases s.function? <;> rfl

@[simp] theorem functionBodies_nil : functionBodies [] = [] := by
  simp [functionBodies, allStmts]

@[simp] theorem bodies_binds (names : List String) : (binds names).flatMap Task.bodies = [] := by
  simp [binds, Task.bodies]

@[simp] theorem bodies_toVisit (quiet : Bool) (visits : List Visit) :
    (toVisit quiet visits).flatMap Task.bodies = functionBodies (visits.flatMap Visit.nearest) := by
  rw [toVisit, List.flatMap_map, functionBodies_flatMap]
  rfl

@[simp] theorem bodies_values (quiet : Bool) (es : List Expr) :
    (values quiet es).flatMap Task.bodies = [] := by
  simp [values, Visit.nearest]

/-- An expression leads to no bodies. -/
theorem exprTasks_bodies (quiet : Bool) (role : Role) (e : Expr) :
    (exprTasks quiet role e).flatMap Task.bodies = [] := by
  have hinner : functionBodies ((e.inner role).flatMap Visit.nearest) = [] := by
    rw [e.nearest_inner role, functionBodies_nil]
  cases role with
  | value =>
    cases e with
    | name span id => cases quiet <;> simp [exprTasks, Task.bodies]
    | lambda span params body => simp [exprTasks]
    | _ => exact (bodies_toVisit ..).trans hinner
  | target =>
    rw [exprTasks, List.flatMap_append, bodies_binds, List.nil_append, bodies_toVisit]
    exact hinner
  | pattern => exact (bodies_toVisit ..).trans hinner

/-- **What a visit asks for leads to the bodies that it leads to itself.** -/
theorem visitTasks_bodies (quiet : Bool) (v : Visit) :
    (visitTasks quiet v).flatMap Task.bodies = functionBodies v.nearest := by
  cases v with
  | enter s =>
    rw [visitTasks, Visit.nearest, functionBodies_singleton]
    cases s <;>
      simp [stmtTasks, Task.bodies, Visit.nearest, Stmt.function?, Stmt.blocks, Stmt.nearest_inner]
  | expr role e => exact (exprTasks_bodies quiet role e).trans functionBodies_nil.symm
  | _ => simp [visitTasks, Visit.nearest]

/-- The bodies that a visit leads to are those it puts off, with those inside them. -/
theorem functionBodies_nearest (quiet : Bool) (v : Visit) :
    functionBodies v.nearest = withInnerBodies (putOff (eventsOf quiet v)) := by
  rw [← visitTasks_bodies quiet, ← visitTasks_events, putOff, List.filterMap_flatMap,
    withInnerBodies, List.flatMap_assoc]
  refine List.flatMap_congr fun task htask => ?_
  cases task with
  | event event => cases event <;> simp [Task.bodies, Task.events, NameEvent.later?]
  | visit quiet' w => exact functionBodies_nearest quiet' w
termination_by v.weight
decreasing_by exact (visitTasks_under htask).weight_lt

theorem functionBodies_eq (stmts : List Stmt) :
    functionBodies stmts = withInnerBodies (putOff (blockNameEvents stmts)) := by
  have hstmts : stmts = (stmts.map Visit.enter).flatMap Visit.nearest := by
    simp [Visit.nearest]
  rw [← eventsOf_block, putOff, List.filterMap_flatMap, withInnerBodies, List.flatMap_assoc]
  conv_lhs => rw [hstmts, functionBodies_flatMap]
  exact List.flatMap_congr fun v _ => functionBodies_nearest false v

/-- **Every body on the queue is walked once, and so is every one inside it.**  As many
bodies are drained as there are, so each step of the induction takes one away. -/
theorem leads_queue {n : Nat} (queue : List (List Stmt)) (events : List NameEvent)
    (walked : List (List Stmt)) (hn : (withInnerBodies queue).length = n) :
    ∃ bodies, bodies.Perm (withInnerBodies queue) ∧ Leads ⟨[], queue, events, walked⟩
      ⟨[], [], events ++ (NameEvent.drain n queue).filter isOfName, walked ++ bodies⟩ := by
  induction n generalizing queue events walked with
  | zero =>
    cases queue with
    | nil => exact ⟨[], .nil, by simpa [NameEvent.drain] using .refl⟩
    | cons body queue => simp [withInnerBodies] at hn
  | succ n ih =>
    cases queue with
    | nil => simp [withInnerBodies] at hn
    | cons body queue =>
      have hrest : withInnerBodies (queue ++ putOff (blockNameEvents body))
          = withInnerBodies queue ++ functionBodies body := by
        rw [functionBodies_eq body]
        exact List.flatMap_append
      have hwhole : withInnerBodies (body :: queue)
          = body :: (functionBodies body ++ withInnerBodies queue) := rfl
      have hlength : (withInnerBodies (queue ++ putOff (blockNameEvents body))).length = n := by
        rw [hwhole] at hn
        rw [hrest]
        simp only [List.length_cons, List.length_append] at hn ⊢
        omega
      obtain ⟨bodies, hbodies, hleads⟩ := ih (queue ++ putOff (blockNameEvents body))
        (events ++ (blockNameEvents body).filter isOfName) (walked ++ [body]) hlength
      refine ⟨body :: bodies, ?_, ?_⟩
      · rw [hwhole]
        exact (hbodies.trans (hrest ▸ List.perm_append_comm)).cons body
      · rw [NameEvent.drain, List.filter_append]
        simp only [List.append_assoc, List.singleton_append] at hleads
        exact Relation.ReflTransGen.head rfl
          (Relation.ReflTransGen.trans (leads_block body ..) hleads)

/-! ### Whole walks -/

/-- What happens to names on a walk through a module, all in all. -/
def allEvents (module : Module) : List NameEvent :=
  (builtinNames.map NameEvent.bind ++ module.nameEvents).filter isOfName

theorem prelude_filter (module : Module) : (prelude module).filter isOfName = prelude module := by
  refine List.filter_eq_self.mpr fun event hevent => ?_
  obtain ⟨name, -, rfl⟩ := List.mem_map.mp hevent
  rfl

theorem allEvents_eq (module : Module) :
    allEvents module = prelude module ++ (blockNameEvents module.body).filter isOfName
      ++ (NameEvent.drain ((allStmts module.body).countP (·.function?.isSome))
        (putOff (blockNameEvents module.body))).filter isOfName := by
  rw [← prelude_filter, allEvents, Module.nameEvents, ← List.filter_append, ← List.filter_append]
  simp only [prelude, putOff, List.map_append, List.append_assoc]

theorem rightUnique_step : Relator.RightUnique fun a b : State => a.step? = some b := by
  intro a b c hb hc
  exact Option.some.inj (hb.symm.trans hc)

/-- A walk that has come to its end is where every walk from there comes to. -/
theorem Leads.to_end {a b last : State} (hlast : Leads a last) (hend : last.step? = none)
    (hb : Leads a b) : Leads b last := by
  rcases Relation.ReflTransGen.total_of_right_unique rightUnique_step hb hlast with h | h
  · exact h
  · rcases Relation.ReflTransGen.cases_head h with rfl | ⟨c, hc, -⟩
    · exact .refl
    · rw [hend] at hc
      cases hc

/-- **A walk through a module comes to an end**, with all events written down and every
function's body walked. -/
theorem exists_end (module : Module) : ∃ bodies, bodies.Perm (functionBodies module.body) ∧
    Leads (.start module) ⟨[], [], allEvents module, bodies⟩ := by
  have hcount : (withInnerBodies (putOff (blockNameEvents module.body))).length
      = (allStmts module.body).countP (·.function?.isSome) := by
    rw [← functionBodies_eq, functionBodies, List.length_filterMap_eq_countP]
    simp only [Option.isSome_map]
  obtain ⟨bodies, hbodies, hleads⟩ := leads_queue (putOff (blockNameEvents module.body))
    (prelude module ++ (blockNameEvents module.body).filter isOfName) [] hcount
  refine ⟨bodies, functionBodies_eq module.body ▸ hbodies, ?_⟩
  rw [allEvents_eq]
  exact Relation.ReflTransGen.trans (leads_block module.body ..) hleads

end NameWalk

end Scrutiny
