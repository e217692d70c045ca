/-
Where a traversal of a tree leads.

A visit leads directly to a few others (`Visit.inner`), and the visits of a traversal are
a visit with all that it leads to, directly or not (`Visit.trail_eq`).  So a property of
visits that passes on to where they lead holds of the whole traversal
(`Module.forall_visits`), and the visits to a module are closed under going on
(`Module.visits_closed`).

Where a visit leads is matched with the tree.  A visit leads to each node directly inside
its own, once, or only to its own node again in a later role (`Expr.node_inner`,
`Stmt.node_inner`).  Hence a traversal never leaves the tree (`Visit.inner_inside`) and
meets every node of it (`Module.Has.met`).  One that refuses to go into some statements
meets what is reached without going into these (`Node.Reaches.met`), and nothing else
(`reaches_of_mem_blockVisits`).
-/
import Mathlib.Data.List.Perm.Basic
import Scrutiny.Proofs.Syntax.Nodes
import Scrutiny.Syntax.Visit

namespace Scrutiny

variable {closed : Node → Bool} {into : Stmt → Bool} {m n : Node} {module : Module} {s : Stmt}
  {v w : Visit}

/-- The visit to an expression that may be missing. -/
def optional (role : Role) (e : Option Expr) : List Visit := e.toList.map (.expr role)

/-- Where the clauses of a comprehension lead. -/
def Comprehension.inner (clause : Comprehension) : List Visit :=
  .expr .value clause.iter :: .expr .target clause.target ::
    clause.conditions.map (.expr .value)

/-- Where the items of a dictionary lead. -/
def DictItem.inner (role : Role) (item : DictItem) : List Visit :=
  optional .value item.key ++ [.expr role item.value]

/-- Where a value leads. -/
def Expr.valueInner : Expr → List Visit
  | .name .. | .constant .. | .string .. => []
  | .boolOp _ _ values | .list _ values | .tuple _ values | .set _ values =>
    values.map (.expr .value)
  | .binOp _ left _ right => [.expr .value left, .expr .value right]
  | .unaryOp _ _ value | .member _ value _ | .starred _ value | .await _ value
  | .yieldFrom _ value => [.expr .value value]
  | .compare _ left _ comparators => .expr .value left :: comparators.map (.expr .value)
  | .lambda _ params body => params.map .param ++ [.expr .value body]
  | .conditional _ test body orElse =>
    [.expr .value test, .expr .value body, .expr .value orElse]
  | .named _ target value => [.expr .value value, .expr .target target]
  | .call _ func args keywords =>
    .expr .value func :: args.map (.expr .value) ++ keywords.map (.expr .value ·.value)
  | .subscript _ value index => [.expr .value value, .expr .value index]
  | .slice _ lower upper step =>
    optional .value lower ++ optional .value upper ++ optional .value step
  | .dict _ items => items.flatMap (DictItem.inner .value)
  | .listComp _ elt clauses | .setComp _ elt clauses | .generator _ elt clauses =>
    clauses.flatMap Comprehension.inner ++ [.expr .value elt]
  | .dictComp _ key value clauses =>
    clauses.flatMap Comprehension.inner ++ [.expr .value key, .expr .value value]
  | .yield _ value => optional .value value

/-- Where a target leads: what is in it is a target again, and what it reads is a value. -/
def Expr.targetInner : Expr → List Visit
  | .name .. => []
  | .starred _ value => [.expr .target value]
  | .list _ elts | .tuple _ elts => elts.map (.expr .target)
  | .member _ value _ => [.expr .value value]
  | .subscript _ value index => [.expr .value value, .expr .value index]
  | e => [.expr .value e]

/-- Where a pattern leads: to patterns, to its captures and to what is compared with. -/
def Expr.patternInner : Expr → List Visit
  | .name span id => [.expr .target (.name span id)]
  | .starred _ value => [.expr .pattern value]
  | .list _ elts | .tuple _ elts => elts.map (.expr .pattern)
  | .binOp _ left .bitOr right => [.expr .pattern left, .expr .pattern right]
  | .call _ func args keywords =>
    .expr .value func :: args.map (.expr .pattern) ++ keywords.map (.expr .pattern ·.value)
  | .dict _ items => items.flatMap (DictItem.inner .pattern)
  | e => [.expr .value e]

/-- Where an expression in a role leads. -/
def Expr.inner : Role → Expr → List Visit
  | .value, e => e.valueInner
  | .target, e => e.targetInner
  | .pattern, e => e.patternInner

/-- Where an item of a `with` leads. -/
def WithItem.inner (item : WithItem) : List Visit :=
  .expr .value item.context :: optional .target item.vars

/-- Where a case clause leads. -/
def MatchCase.inner (clause : MatchCase) : List Visit :=
  .expr .pattern clause.pattern :: optional .target clause.binding ++
    optional .value clause.guard ++ clause.body.map .enter

/-- Where a type parameter leads. -/
def TypeParam.inner (param : TypeParam) : List Visit := optional .value param.bound

/-- Where a statement leads. -/
def Stmt.inner : Stmt → List Visit
  | .expr _ value => [.expr .value value]
  | .assign _ targets value => .expr .value value :: targets.map (.expr .target)
  | .augAssign _ target _ value => [.expr .value value, .expr .target target]
  | .annAssign _ target hint value =>
    .expr .value hint :: optional .value value ++ [.expr .target target]
  | .pass_ _ | .break_ _ | .continue_ _ | .global_ .. | .nonlocal_ .. | .import_ ..
  | .importFrom .. => []
  | .return_ _ value => optional .value value
  | .raise_ _ exc cause => optional .value exc ++ optional .value cause
  | .delete_ _ targets => targets.map (.expr .target)
  | .assert_ _ test msg => .expr .value test :: optional .value msg
  | .if_ _ test body orElse | .while_ _ test body orElse =>
    .expr .value test :: (body ++ orElse).map .enter
  | .for_ _ target iter body orElse _ =>
    .expr .value iter :: .expr .target target :: (body ++ orElse).map .enter
  | .try_ _ body handlers orElse finalBody =>
    body.map .enter ++ handlers.map .handler ++ (orElse ++ finalBody).map .enter
  | .with_ _ items body _ => items.flatMap WithItem.inner ++ body.map .enter
  | .match_ _ subject cases => .expr .value subject :: cases.flatMap MatchCase.inner
  | .typeAlias _ name typeParams value =>
    typeParams.flatMap TypeParam.inner ++ [.expr .value value, .expr .target name]
  | .function _ definition =>
    definition.decorators.map (.expr .value) ++ definition.typeParams.flatMap TypeParam.inner ++
      definition.params.map .param ++ optional .value definition.returns ++
      definition.body.map .enter
  | .class_ _ definition =>
    definition.decorators.map (.expr .value) ++ definition.typeParams.flatMap TypeParam.inner ++
      definition.bases.map (.expr .value) ++ definition.keywords.map (.expr .value ·.value) ++
      definition.body.map .enter

namespace Visit

/-- Where a visit leads. -/
def inner : Visit → List Visit
  | enter s => s.inner
  | leave _ => []
  | expr role e => e.inner role
  | param p => optional .value p.hint ++ optional .value p.default
  | handler h => optional .value h.type ++ h.body.map .enter

/-- The visit that comes after all that a visit leads to. -/
def last : Visit → List Visit
  | enter s => [leave s]
  | _ => []

/-- The visits that a traversal makes from one on. -/
def trail (into : Stmt → Bool) : Visit → List Visit
  | enter s => s.visits into
  | leave s => [leave s]
  | expr role e => e.visits role
  | param p => p.visits
  | handler h => handlerVisits into [h]

end Visit


/-! ### The visits from one on -/

section

variable (into : Stmt → Bool)

@[simp] theorem trail_exprs (role : Role) (es : List Expr) :
    (es.map (Visit.expr role)).flatMap (Visit.trail into) = visitsAll role es := by
  induction es with
  | nil => simp [visitsAll]
  | cons e es ih => simp [visitsAll, Visit.trail, ih]

@[simp] theorem trail_value (value : Option Expr) :
    (optional .value value).flatMap (Visit.trail into) = visitsOpt value := by
  cases value <;> simp [optional, visitsOpt, Visit.trail]

@[simp] theorem trail_binding (binding : Option Expr) :
    (optional .target binding).flatMap (Visit.trail into) = bindingVisits binding := by
  cases binding <;> simp [optional, bindingVisits, Visit.trail]

@[simp] theorem trail_params (params : List Param) :
    (params.map Visit.param).flatMap (Visit.trail into) = paramVisits params := by
  induction params with
  | nil => simp [paramVisits]
  | cons p params ih => simp [paramVisits, Visit.trail, ih]

@[simp] theorem trail_keywords (role : Role) (keywords : List KeywordArg) :
    (keywords.map (Visit.expr role ·.value)).flatMap (Visit.trail into) =
      keywordVisits role keywords := by
  induction keywords with
  | nil => simp [keywordVisits]
  | cons keyword keywords ih =>
    obtain ⟨arg, value⟩ := keyword
    simp [keywordVisits, Visit.trail, ih]

@[simp] theorem trail_items (role : Role) (items : List DictItem) :
    (items.flatMap (DictItem.inner role)).flatMap (Visit.trail into) = itemVisits role items := by
  induction items with
  | nil => simp [itemVisits]
  | cons item items ih =>
    obtain ⟨key, value⟩ := item
    simp [itemVisits, DictItem.inner, Visit.trail, ih]

@[simp] theorem trail_clauses (clauses : List Comprehension) :
    (clauses.flatMap Comprehension.inner).flatMap (Visit.trail into) = clauseVisits clauses := by
  induction clauses with
  | nil => simp [clauseVisits]
  | cons clause clauses ih =>
    obtain ⟨target, iter, conditions, isAsync⟩ := clause
    simp [clauseVisits, Comprehension.inner, Visit.trail, ih]

/-- The visits to an expression are itself and those from where it leads. -/
theorem Expr.visits_eq (role : Role) (e : Expr) :
    e.visits role = .expr role e :: (e.inner role).flatMap (Visit.trail into) := by
  cases role with
  | value => cases e <;> simp [Expr.visits, asValue, Expr.inner, Expr.valueInner, Visit.trail]
  | target => cases e <;> simp [Expr.visits, asValue, Expr.inner, Expr.targetInner, Visit.trail]
  | pattern =>
    cases e with
    | binOp span left op right =>
      cases op <;> simp [Expr.visits, asValue, Expr.inner, Expr.patternInner, Visit.trail]
    | _ => simp [Expr.visits, asValue, Expr.inner, Expr.patternInner, Visit.trail]

@[simp] theorem trail_bounds (params : List TypeParam) :
    (params.flatMap TypeParam.inner).flatMap (Visit.trail into) = boundVisits params := by
  rw [boundVisits, List.flatMap_assoc]
  simp [TypeParam.inner]

@[simp] theorem trail_withItems (items : List WithItem) :
    (items.flatMap WithItem.inner).flatMap (Visit.trail into) = withItemVisits items := by
  rw [withItemVisits, List.flatMap_assoc]
  simp only [WithItem.inner, List.flatMap_cons, trail_binding]
  rfl

@[simp] theorem trail_block (stmts : List Stmt) :
    (stmts.map Visit.enter).flatMap (Visit.trail into) = blockVisits into stmts := by
  induction stmts with
  | nil => simp [blockVisits]
  | cons s stmts ih => simp [blockVisits, Visit.trail, ih]

@[simp] theorem trail_handlers (handlers : List Handler) :
    (handlers.map Visit.handler).flatMap (Visit.trail into) = handlerVisits into handlers := by
  induction handlers with
  | nil => simp [handlerVisits]
  | cons h handlers ih =>
    obtain ⟨type, isStar, name, body, span⟩ := h
    simp [handlerVisits, Visit.trail, ih]

@[simp] theorem trail_cases (cases : List MatchCase) :
    (cases.flatMap MatchCase.inner).flatMap (Visit.trail into) = caseVisits into cases := by
  induction cases with
  | nil => simp [caseVisits]
  | cons clause cases ih =>
    obtain ⟨pattern, binding, guard, body, span⟩ := clause
    simp [caseVisits, MatchCase.inner, Visit.trail, ih]

/-- The visits to a statement are itself, those from where it leads, and leaving it. -/
theorem Stmt.visits_eq (s : Stmt) :
    s.visits into = framed into s (s.inner.flatMap (Visit.trail into)) := by
  cases s with
  | function span definition =>
    obtain ⟨name, typeParams, params, returns, body, decorators, isAsync⟩ := definition
    simp [Stmt.visits, FunctionDef.visits, Stmt.inner]
  | class_ span definition =>
    obtain ⟨name, typeParams, bases, keywords, body, decorators⟩ := definition
    simp [Stmt.visits, ClassDef.visits, Stmt.inner]
  | _ => simp [Stmt.visits, Stmt.inner, Visit.trail]

/-- Whether a visit is made at all: `into` may refuse a statement. -/
def Visit.isMade : Visit → Bool
  | enter s => into s
  | _ => true

/-- **A traversal goes where its visits lead**, and into no statement that is refused. -/
theorem Visit.trail_eq (v : Visit) :
    v.trail into =
      if v.isMade into then v :: (v.inner.flatMap (Visit.trail into) ++ v.last) else [] := by
  cases v with
  | enter s => exact s.visits_eq into
  | leave s => simp [Visit.trail, Visit.isMade, Visit.inner, Visit.last]
  | expr role e =>
    rw [Visit.trail, Expr.visits_eq into]
    simp [Visit.isMade, Visit.inner, Visit.last]
  | param p =>
    obtain ⟨name, kind, hint, default, span⟩ := p
    simp [Visit.trail, Visit.isMade, Visit.inner, Visit.last, Param.visits]
  | handler h =>
    obtain ⟨type, isStar, name, body, span⟩ := h
    simp [Visit.trail, Visit.isMade, Visit.inner, Visit.last, handlerVisits]

end

/-! ### Visits and nodes -/

/-- The node that a visit is to. -/
def Visit.node : Visit → Node
  | .enter stmt => .stmt stmt
  | .leave stmt => .stmt stmt
  | .expr _ e => .expr e
  | .param p => .param p
  | .handler h => .handler h

/-- How often an expression in a role may still be met in another. -/
def Role.rank : Role → Nat
  | .value => 0
  | .target => 1
  | .pattern => 2

/-- How often the node of a visit may still be met. -/
def Visit.rank : Visit → Nat
  | .expr role _ => role.rank
  | _ => 0

/-- Whether a visit comes before those inside its node. -/
def Visit.opens : Visit → Bool
  | .leave _ => false
  | _ => true

/-- The nodes that stand for a node in a traversal: it goes through type parameters and
case clauses without a visit to them. -/
def Node.visited : Node → List Node
  | .typeParam p => (Node.typeParam p).children
  | .case c => (Node.case c).children
  | n => [n]

@[simp] theorem Visit.node_comp_enter : Visit.node ∘ Visit.enter = Node.stmt := rfl

@[simp] theorem Visit.node_comp_expr (role : Role) : Visit.node ∘ Visit.expr role = Node.expr := rfl

@[simp] theorem Visit.node_comp_param : Visit.node ∘ Visit.param = Node.param := rfl

@[simp] theorem Visit.node_comp_handler : Visit.node ∘ Visit.handler = Node.handler := rfl

@[simp] theorem Visit.node_comp_keyword (role : Role) :
    Visit.node ∘ (fun keyword : KeywordArg => Visit.expr role keyword.value) =
      fun keyword => Node.expr keyword.value := rfl

@[simp] theorem node_optional (role : Role) (e : Option Expr) :
    (optional role e).map Visit.node = e.toList.map .expr := by
  simp [optional]

@[simp] theorem node_items (role : Role) (items : List DictItem) :
    (items.flatMap (DictItem.inner role)).map Visit.node =
      (items.flatMap DictItem.exprs).map .expr := by
  simp [List.map_flatMap, DictItem.inner, DictItem.exprs, Visit.node]

@[simp] theorem node_withItems (items : List WithItem) :
    (items.flatMap WithItem.inner).map Visit.node = (items.flatMap WithItem.exprs).map .expr := by
  simp [List.map_flatMap, WithItem.inner, WithItem.exprs, Visit.node]

theorem node_clauses (clauses : List Comprehension) :
    ((clauses.flatMap Comprehension.inner).map Visit.node).Perm
      ((clauses.flatMap Comprehension.exprs).map .expr) := by
  simp only [List.map_flatMap]
  refine List.Perm.flatMap_left _ fun clause _ => ?_
  simp only [Comprehension.inner, Comprehension.exprs, List.map_cons, List.map_map, Visit.node,
    Visit.node_comp_expr]
  exact .swap ..

/-- A value leads to each node directly inside it, once. -/
theorem Expr.node_valueInner (e : Expr) : (e.valueInner.map Visit.node).Perm e.children := by
  cases e with
  | named span target value => exact .swap ..
  | listComp span elt clauses | setComp span elt clauses | generator span elt clauses =>
    rw [Expr.valueInner, List.map_append]
    exact List.perm_append_comm.trans ((node_clauses clauses).cons _)
  | dictComp span key value clauses =>
    rw [Expr.valueInner, List.map_append]
    exact List.perm_append_comm.trans (((node_clauses clauses).cons _).cons _)
  | _ => simp [Expr.valueInner, Expr.children, Visit.node]

/-- An expression leads to each node directly inside it, or only to itself in a role that
comes after its own. -/
theorem Expr.node_inner (role : Role) (e : Expr) : ((e.inner role).map Visit.node).Perm e.children ∨
      ∃ next : Role, e.inner role = [.expr next e] ∧ next.rank < role.rank := by
  cases role with
  | value => exact .inl e.node_valueInner
  | target =>
    cases e with
    | name | starred | list | tuple | member | subscript =>
      simp [Expr.inner, Expr.targetInner, Expr.children, Visit.node]
    | _ => exact .inr ⟨.value, rfl, by decide⟩
  | pattern =>
    cases e with
    | name => exact .inr ⟨.target, rfl, by decide⟩
    | starred | list | tuple | call | dict =>
      simp [Expr.inner, Expr.patternInner, Expr.children, Visit.node]
    | binOp span left op right =>
      cases op with
      | bitOr => exact .inl (.refl _)
      | _ => exact .inr ⟨.value, rfl, by decide⟩
    | _ => exact .inr ⟨.value, rfl, by decide⟩


theorem visited_map {α : Type} {f : α → Node} (hf : ∀ a, (f a).visited = [f a]) (as : List α) :
    (as.map f).flatMap Node.visited = as.map f := by
  induction as with
  | nil => rfl
  | cons a as ih => rw [List.map_cons, List.flatMap_cons, hf, ih, List.singleton_append]

@[simp] theorem visited_stmts (stmts : List Stmt) :
    (stmts.map Node.stmt).flatMap Node.visited = stmts.map .stmt :=
  visited_map (fun _ => rfl) stmts

@[simp] theorem visited_exprs (es : List Expr) :
    (es.map Node.expr).flatMap Node.visited = es.map .expr :=
  visited_map (fun _ => rfl) es

@[simp] theorem visited_params (params : List Param) :
    (params.map Node.param).flatMap Node.visited = params.map .param :=
  visited_map (fun _ => rfl) params

@[simp] theorem visited_handlers (handlers : List Handler) :
    (handlers.map Node.handler).flatMap Node.visited = handlers.map .handler :=
  visited_map (fun _ => rfl) handlers

@[simp] theorem visited_keywords (keywords : List KeywordArg) :
    (keywords.map (Node.expr ·.value)).flatMap Node.visited = keywords.map (.expr ·.value) :=
  visited_map (fun _ => rfl) keywords

@[simp] theorem visited_typeParams (params : List TypeParam) :
    (params.map Node.typeParam).flatMap Node.visited =
      (params.flatMap TypeParam.inner).map Visit.node := by
  simp [List.flatMap_map, List.map_flatMap, Node.visited, Node.children, TypeParam.inner]

@[simp] theorem visited_cases (cases : List MatchCase) :
    (cases.map Node.case).flatMap Node.visited
      = (cases.flatMap MatchCase.inner).map Visit.node := by
  simp [List.flatMap_map, List.map_flatMap, Node.visited, Node.children,
    MatchCase.inner, Visit.node]

theorem Node.visited_visited (n : Node) : n.visited.flatMap Node.visited = n.visited := by
  cases n <;> simp [Node.visited, Node.children]

theorem Expr.visited_children (e : Expr) : e.children.flatMap Node.visited = e.children := by
  cases e <;> simp [Expr.children, Node.visited]

/-- A statement leads to each node directly inside it, once. -/
theorem Stmt.node_inner (s : Stmt) :
    (s.inner.map Visit.node).Perm (s.children.flatMap Node.visited) := by
  cases s with
  | assign span targets value =>
    simp only [Stmt.inner, Stmt.children, List.flatMap_append, visited_exprs, List.map_cons,
      List.map_map, Visit.node_comp_expr]
    exact (List.perm_append_singleton ..).symm
  | augAssign span target op value => exact .swap ..
  | annAssign span target hint value =>
    simp only [Stmt.inner, Stmt.children, List.flatMap_cons, visited_exprs, List.map_append,
      List.map_cons, node_optional]
    exact List.perm_append_comm
  | for_ span target iter body orElse isAsync =>
    simp only [Stmt.inner, Stmt.children, List.flatMap_cons, visited_stmts, List.map_cons,
      List.map_map, Visit.node_comp_enter]
    exact .swap ..
  | typeAlias span name typeParams value =>
    simp only [Stmt.inner, Stmt.children, List.flatMap_append, List.flatMap_cons,
      visited_typeParams, List.map_append]
    refine List.perm_append_comm.trans (.trans (.swap ..) (.cons _ ?_))
    exact (List.perm_append_singleton ..).symm
  | _ => simp [Stmt.inner, Stmt.children, Visit.node, Node.visited]

@[simp] theorem opens_optional (role : Role) (e : Option Expr) :
    (optional role e).all Visit.opens = true := by
  cases e <;> rfl

@[simp] theorem opens_exprs (role : Role) (es : List Expr) :
    es.all (Visit.opens ∘ Visit.expr role) = true := by
  simp [Visit.opens]

theorem Expr.opens_inner (role : Role) (e : Expr) : (e.inner role).all Visit.opens = true := by
  cases role with
  | value =>
    cases e <;> simp [Expr.inner, Expr.valueInner, Visit.opens, DictItem.inner, Comprehension.inner]
  | target => cases e <;> simp [Expr.inner, Expr.targetInner, Visit.opens]
  | pattern =>
    cases e with
    | binOp span left op right => cases op <;> simp [Expr.inner, Expr.patternInner, Visit.opens]
    | _ => simp [Expr.inner, Expr.patternInner, Visit.opens, DictItem.inner]

theorem Stmt.opens_inner (s : Stmt) : s.inner.all Visit.opens = true := by
  cases s
  all_goals simp [Stmt.inner, Visit.opens, WithItem.inner, TypeParam.inner, MatchCase.inner]

/-- A visit leads to visits that open. -/
theorem Visit.opens_inner (v : Visit) : v.inner.all Visit.opens = true := by
  cases v with
  | enter s => exact s.opens_inner
  | leave s => rfl
  | expr role e => exact e.opens_inner role
  | param p => simp [Visit.inner]
  | handler h => simp [Visit.inner, Visit.opens]

/-- **A visit leads to each node directly inside its own, once**, or only to its own node
again, in a later role. -/
theorem Visit.node_inner (hv : v.opens = true) :
    (v.inner.map Visit.node).Perm (v.node.children.flatMap Node.visited) ∨
      ∃ w, v.inner = [w] ∧ w.node = v.node ∧ w.rank < v.rank := by
  cases v with
  | enter s => exact .inl s.node_inner
  | leave s => cases hv
  | expr role e =>
    rcases e.node_inner role with hperm | ⟨next, hnext, hlt⟩
    · refine .inl ?_
      rw [Visit.node, Node.children, Expr.visited_children]
      exact hperm
    · exact .inr ⟨_, hnext, rfl, hlt⟩
  | param p => exact .inl (by simp [Visit.inner, Visit.node, Node.children])
  | handler h => exact .inl (by simp [Visit.inner, Visit.node, Node.children])

/-! ### A traversal stays inside the tree -/

theorem Node.has_of_mem_visited (h : m ∈ n.visited) : n.Has m := by
  cases n with
  | typeParam | case => exact .child h .self
  | stmt | expr | param | handler =>
    cases List.mem_singleton.mp h
    exact .self

/-- A visit leads to its own node, in a later role, or into a node directly inside. -/
theorem Visit.inner_inside (hw : w ∈ v.inner) :
    (w.node = v.node ∧ w.rank < v.rank) ∨ ∃ child ∈ v.node.children, child.Has w.node := by
  by_cases hv : v.opens = true
  · rcases Visit.node_inner hv with hperm | ⟨next, hnext, hnode, hrank⟩
    · obtain ⟨child, hchild, hmem⟩ :=
        List.mem_flatMap.mp (hperm.mem_iff.mp (List.mem_map_of_mem hw))
      exact .inr ⟨child, hchild, Node.has_of_mem_visited hmem⟩
    · rw [hnext] at hw
      cases List.mem_singleton.mp hw
      exact .inl ⟨hnode, hrank⟩
  · cases v with
    | leave s => cases hw
    | _ => exact absurd rfl hv

theorem Visit.has_of_mem_inner (hw : w ∈ v.inner) : v.node.Has w.node := by
  rcases Visit.inner_inside hw with ⟨hnode, -⟩ | ⟨child, hchild, hhas⟩
  · rw [hnode]
    exact .self
  · exact .child hchild hhas

theorem Visit.node_last (hw : w ∈ v.last) : w.node = v.node := by
  cases v with
  | enter s => rw [List.mem_singleton.mp hw]; rfl
  | _ => cases hw

/-- What bounds how far a traversal still goes from a visit. -/
noncomputable def Visit.weight (v : Visit) : Nat :=
  3 * v.node.size + v.rank

theorem Role.rank_le (role : Role) : role.rank ≤ 2 := by
  cases role <;> decide

theorem Visit.rank_le (v : Visit) : v.rank ≤ 2 := by
  cases v with
  | expr role e => exact role.rank_le
  | _ => exact Nat.zero_le 2

theorem Visit.weight_lt (hw : w ∈ v.inner) : w.weight < v.weight := by
  have hrank := w.rank_le
  unfold Visit.weight
  rcases Visit.inner_inside hw with ⟨hnode, hlt⟩ | ⟨child, hchild, hhas⟩
  · rw [hnode]
    omega
  · have hle := hhas.size_le
    have hlt := v.node.children_smaller child hchild
    omega

/-- What passes on to where a visit leads, and to leaving it, holds of a whole traversal. -/
theorem Visit.forall_trail {P : Visit → Prop} (hinner : ∀ v, P v → ∀ w ∈ v.inner, P w)
    (hlast : ∀ v, P v → ∀ w ∈ v.last, P w) (into : Stmt → Bool) (v : Visit) (hv : P v) :
    ∀ u ∈ v.trail into, P u := by
  intro u hu
  rw [Visit.trail_eq] at hu
  split at hu
  · rcases List.mem_cons.mp hu with rfl | hu
    · exact hv
    rcases List.mem_append.mp hu with hu | hu
    · obtain ⟨w, hw, hu⟩ := List.mem_flatMap.mp hu
      exact Visit.forall_trail hinner hlast into w (hinner v hv w hw) u hu
    · exact hlast v hv u hu
  · cases hu
termination_by v.weight
decreasing_by exact Visit.weight_lt hw

/-- Where the parts of a list lead, if the parts are changed and each leads where it did. -/
theorem flatMap_inner_map {α : Type} {φ : Visit → Visit} {g : α → α} {inner : α → List Visit}
    (h : ∀ a, inner (g a) = (inner a).map φ) (as : List α) :
    (as.map g).flatMap inner = (as.flatMap inner).map φ := by
  rw [List.flatMap_map, List.map_flatMap]
  exact List.flatMap_congr fun a _ => h a

/-- If changed visits lead where they did, a traversal goes as it did. -/
theorem Visit.trail_map {φ : Visit → Visit} (hinner : ∀ v, (φ v).inner = v.inner.map φ)
    (hlast : ∀ v, (φ v).last = v.last.map φ)
    (hmade : ∀ v, (φ v).isMade into = v.isMade into) (v : Visit) :
    (φ v).trail into = (v.trail into).map φ := by
  rw [Visit.trail_eq, Visit.trail_eq into v, hmade, hinner, hlast]
  split
  · rw [List.map_cons, List.map_append, List.flatMap_map, List.map_flatMap]
    congr 2
    exact List.flatMap_congr fun w _ => Visit.trail_map hinner hlast hmade w
  · rfl
termination_by v.weight
decreasing_by exact Visit.weight_lt ‹_›

theorem Visit.mem_trail_self (hmade : v.isMade into = true) : v ∈ v.trail into := by
  rw [Visit.trail_eq, if_pos hmade]
  exact List.mem_cons_self

/-- The visits of a traversal are closed under going on from one of them. -/
theorem Visit.trail_closed {into : Stmt → Bool} {v u w : Visit} (hu : u ∈ v.trail into)
    (hw : w ∈ u.inner) (hmade : w.isMade into = true) : w ∈ v.trail into := by
  rw [Visit.trail_eq] at hu ⊢
  split at hu
  case isFalse => cases hu
  case isTrue hfirst =>
    rw [if_pos hfirst]
    rcases List.mem_cons.mp hu with rfl | hu
    · simp only [List.mem_cons, List.mem_append, List.mem_flatMap]
      exact .inr (.inl ⟨w, hw, Visit.mem_trail_self hmade⟩)
    rcases List.mem_append.mp hu with hu | hu
    · obtain ⟨x, hx, hu⟩ := List.mem_flatMap.mp hu
      have hrest := Visit.trail_closed hu hw hmade
      simp only [List.mem_cons, List.mem_append, List.mem_flatMap]
      exact .inr (.inl ⟨x, hx, hrest⟩)
    · cases v with
      | enter s =>
        cases List.mem_singleton.mp hu
        cases hw
      | _ => cases hu
termination_by v.weight
decreasing_by exact Visit.weight_lt hx

/-! ### The visits to a block -/

/-- A node is at or below another, on a way down that does not go on from `closed` ones. -/
inductive Node.Reaches (closed : Node → Bool) : Node → Node → Prop
  | self {n : Node} : Reaches closed n n
  | child {n m inner : Node} (hopen : closed n = false) (hinner : inner ∈ n.children)
      (hm : Reaches closed inner m) : Reaches closed n m

/-- Whether a node is a statement that a traversal does not go into. -/
def Node.isRefused (into : Stmt → Bool) : Node → Bool
  | .stmt s => !into s
  | _ => false

theorem Node.Reaches.trans {k : Node} (hm : n.Reaches closed m)
    (hk : m.Reaches closed k) : n.Reaches closed k := by
  induction hm with
  | self => exact hk
  | child hopen hinner _ ih => exact .child hopen hinner (ih hk)

theorem Node.Reaches.has (h : n.Reaches closed m) : n.Has m := by
  induction h with
  | self => exact .self
  | child _ hinner _ ih => exact .child hinner ih

/-- Where nothing is closed one comes to all that is below. -/
theorem Node.Has.reaches (h : n.Has m)
    (hopen : ∀ k, n.Has k → closed k = false) : n.Reaches closed m := by
  induction h with
  | self => exact .self
  | child hinner _ ih =>
    exact .child (hopen _ .self) hinner (ih fun k hk => hopen k (.child hinner hk))

theorem Visit.isMade_eq (hv : v.opens = true) : v.isMade into = !v.node.isRefused into := by
  cases v with
  | enter s => simp [Visit.isMade, Visit.node, Node.isRefused]
  | leave s => cases hv
  | _ => rfl

section

variable {into : Stmt → Bool} {block : List Stmt}

theorem blockVisits_closed (hv : v ∈ blockVisits into block) (hw : w ∈ v.inner)
    (hmade : w.isMade into = true) : w ∈ blockVisits into block := by
  rw [← trail_block] at hv ⊢
  obtain ⟨first, hfirst, hv⟩ := List.mem_flatMap.mp hv
  exact List.mem_flatMap.mpr ⟨first, hfirst, Visit.trail_closed hv hw hmade⟩

theorem enter_mem_blockVisits (hs : s ∈ block) (hinto : into s = true) :
    .enter s ∈ blockVisits into block := by
  rw [← trail_block]
  exact List.mem_flatMap.mpr ⟨.enter s, List.mem_map_of_mem hs, Visit.mem_trail_self hinto⟩

/-- A node is met by the visits to a block: each node that stands for it and is not refused is
opened. -/
def Node.MetIn (into : Stmt → Bool) (block : List Stmt) (n : Node) : Prop :=
  ∀ m ∈ n.visited, m.isRefused into = false →
    ∃ v ∈ blockVisits into block, v.opens = true ∧ v.node = m

/-- From a visit that is made, each node directly inside is met. -/
theorem meets_children {v : Visit} (hv : v ∈ blockVisits into block) (hopens : v.opens = true) :
    ∀ child ∈ v.node.children, child.MetIn into block := by
  intro child hchild m hm hrefused
  rcases Visit.node_inner hopens with hperm | ⟨next, hnext, hnode, hrank⟩
  · have hinside : m ∈ v.inner.map Visit.node :=
      hperm.mem_iff.mpr (List.mem_flatMap.mpr ⟨child, hchild, hm⟩)
    obtain ⟨w, hw, rfl⟩ := List.mem_map.mp hinside
    have hwopens := List.all_eq_true.mp v.opens_inner w hw
    exact ⟨w, blockVisits_closed hv hw (by rw [Visit.isMade_eq hwopens, hrefused]; rfl),
      hwopens, rfl⟩
  · -- The same node comes again, in a role of lower rank.
    have hmem : next ∈ v.inner := by simp [hnext]
    have hmade : next.isMade into = true := by
      cases v with
      | expr role e =>
        cases next with
        | expr => rfl
        | _ => cases hnode
      | _ => exact absurd hrank (Nat.not_lt_zero _)
    have hagain := meets_children (blockVisits_closed hv hmem hmade)
      (List.all_eq_true.mp v.opens_inner next hmem)
    exact hagain child (hnode ▸ hchild) m hm hrefused
termination_by v.rank

/-- **A traversal meets every node of a block that it reaches without going into what it
refuses.** -/
theorem Node.Reaches.met (h : (Node.stmt s).Reaches (Node.isRefused into) n)
    (hs : s ∈ block) : n.MetIn into block := by
  have hfirst : (Node.stmt s).MetIn into block := by
    intro m hm hrefused
    cases List.mem_singleton.mp hm
    exact ⟨_, enter_mem_blockVisits hs (by simpa [Node.isRefused] using hrefused), rfl, rfl⟩
  clear hs
  generalize Node.stmt s = top at h hfirst
  induction h with
  | self => exact hfirst
  | @child top n inner hopen hinner _ ih =>
    refine ih ?_
    cases top with
    | typeParam | case =>
      -- What is directly inside stands for the node already.
      intro m hm
      refine hfirst m ?_
      rw [← Node.visited_visited]
      exact List.mem_flatMap.mpr ⟨inner, hinner, hm⟩
    | _ =>
      obtain ⟨v, hv, hopens, hnode⟩ := hfirst _ (List.mem_singleton.mpr rfl) hopen
      exact meets_children hv hopens inner (hnode ▸ hinner)

theorem Node.reaches_of_mem_visited (h : m ∈ n.visited) : n.Reaches (Node.isRefused into) m := by
  cases n with
  | typeParam | case => exact .child rfl h .self
  | stmt | expr | param | handler =>
    cases List.mem_singleton.mp h
    exact .self

/-- From a visit that is made one goes on to what its node reaches. -/
theorem Visit.reaches_of_mem_inner (hmade : v.isMade into = true) (hw : w ∈ v.inner) :
    v.node.Reaches (Node.isRefused into) w.node := by
  by_cases hv : v.opens = true
  · have hopen : v.node.isRefused into = false := by simpa [Visit.isMade_eq hv] using hmade
    rcases Visit.node_inner hv with hperm | ⟨next, hnext, hnode, -⟩
    · obtain ⟨child, hchild, hmem⟩ :=
        List.mem_flatMap.mp (hperm.mem_iff.mp (List.mem_map_of_mem hw))
      exact .child hopen hchild (Node.reaches_of_mem_visited hmem)
    · rw [hnext] at hw
      rw [List.mem_singleton.mp hw, hnode]
      exact .self
  · cases v with
    | leave s => cases hw
    | _ => exact absurd rfl hv

theorem Visit.reaches_of_mem_trail {v u : Visit} (hu : u ∈ v.trail into) :
    v.node.Reaches (Node.isRefused into) u.node := by
  rw [Visit.trail_eq] at hu
  split at hu
  case isFalse => cases hu
  case isTrue hmade =>
    rcases List.mem_cons.mp hu with rfl | hu
    · exact .self
    rcases List.mem_append.mp hu with hu | hu
    · obtain ⟨w, hw, hu⟩ := List.mem_flatMap.mp hu
      exact (Visit.reaches_of_mem_inner hmade hw).trans (Visit.reaches_of_mem_trail hu)
    · rw [Visit.node_last hu]
      exact .self
termination_by v.weight
decreasing_by exact Visit.weight_lt hw

/-- A traversal of a block stays where it can go. -/
theorem reaches_of_mem_blockVisits (hv : v ∈ blockVisits into block) :
    ∃ s ∈ block, (Node.stmt s).Reaches (Node.isRefused into) v.node := by
  rw [← trail_block] at hv
  obtain ⟨first, hfirst, hv⟩ := List.mem_flatMap.mp hv
  obtain ⟨s, hs, rfl⟩ := List.mem_map.mp hfirst
  exact ⟨s, hs, Visit.reaches_of_mem_trail hv⟩

end

/-! ### The visits to a module -/

/-- What holds where the statements of a module are entered, and passes on, holds of all
visits to it. -/
theorem Module.forall_visits {P : Visit → Prop} (module : Module)
    (hbody : ∀ s ∈ module.body, P (.enter s)) (hinner : ∀ v, P v → ∀ w ∈ v.inner, P w)
    (hlast : ∀ v, P v → ∀ w ∈ v.last, P w) : ∀ v ∈ module.visits, P v := by
  intro v hv
  rw [Module.visits, ← trail_block] at hv
  obtain ⟨w, hw, hv⟩ := List.mem_flatMap.mp hv
  obtain ⟨s, hs, rfl⟩ := List.mem_map.mp hw
  exact Visit.forall_trail hinner hlast _ _ (hbody s hs) v hv

theorem Module.visits_closed (hv : v ∈ module.visits) (hw : w ∈ v.inner) : w ∈ module.visits :=
  blockVisits_closed hv hw (by cases w <;> rfl)

/-- **A traversal meets every node of a module.** -/
theorem Module.Has.met (h : module.Has n) :
    ∀ m ∈ n.visited, ∃ v ∈ module.visits, v.opens = true ∧ v.node = m := by
  obtain ⟨s, hs, hn⟩ := h
  have hopen (m : Node) : m.isRefused (fun _ => true) = false := by cases m <;> rfl
  exact fun m hm => (hn.reaches fun k _ => hopen k).met hs m hm (hopen m)

theorem Module.Has.enter_mem_visits (h : module.Has (.stmt s)) : .enter s ∈ module.visits := by
  obtain ⟨v, hv, hopens, hnode⟩ := h.met _ (List.mem_singleton.mpr rfl)
  cases v with
  | enter t =>
    cases hnode
    exact hv
  | leave t => cases hopens
  | _ => cases hnode

theorem Module.Has.expr_mem_visits {e : Expr} (h : module.Has (.expr e)) :
    ∃ role, .expr role e ∈ module.visits := by
  obtain ⟨v, hv, -, hnode⟩ := h.met _ (List.mem_singleton.mpr rfl)
  cases v with
  | expr role f =>
    cases hnode
    exact ⟨role, hv⟩
  | _ => cases hnode

/-- What can be nothing but a value is visited as one wherever it stands. -/
theorem Module.Has.value_mem_visits {e : Expr} (h : module.Has (.expr e))
    (hvalue : ∀ role, role ≠ .value → e.inner role = [.expr .value e]) :
    .expr .value e ∈ module.visits := by
  obtain ⟨role, hv⟩ := h.expr_mem_visits
  by_cases hrole : role = .value
  · exact hrole ▸ hv
  · exact Module.visits_closed hv (by simp [Visit.inner, hvalue role hrole])

end Scrutiny
