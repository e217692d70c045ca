/-
Every expression of a module is visited, and in which roles.

What an expression is where it stands follows from what it is directly inside of: an
assignment has targets, a case clause has a pattern, and the parts of a tuple that is a
target are targets again.  `Placed` is a node with that role, and `Placed.inside` what is
directly inside one, read off the tree alone.

A traversal visits a placed node in its role, and perhaps once more (`Expr.again?`): the
name in a pattern as the target that it is, and what is no pattern by its form as a value.
All visits to a module, in whatever order, are these for all placed nodes
(`Module.visits_perm`).  Hence visits can be matched with the places in the tree.
-/
import Scrutiny.Proofs.Syntax.StmtOrder
import Scrutiny.Proofs.Syntax.Targets

namespace Scrutiny

variable {e : Expr} {module : Module} {role : Role}

/-! ### Roles in the tree -/

/-- A node and what it is where it stands; what is no expression counts as a value. -/
abbrev Placed : Type := Role × Node

/-- Some expressions in one role. -/
def inRole (role : Role) (es : List Expr) : List Placed := es.map fun e => (role, .expr e)

/-- Nodes that have no other role. -/
def asValues (ns : List Node) : List Placed := ns.map (Role.value, ·)

/-- What is in the clause of a comprehension. -/
def Comprehension.parts (clause : Comprehension) : List Placed :=
  inRole .target [clause.target] ++ inRole .value (clause.iter :: clause.conditions)

/-- What is in an item of a dictionary that is a pattern. -/
def DictItem.patternParts (item : DictItem) : List Placed :=
  inRole .value item.key.toList ++ inRole .pattern [item.value]

/-- What is directly inside an expression that plays a role. -/
def Expr.parts : Role → Expr → List Placed
  | role, .starred _ value => inRole role [value]
  | role, .list _ elts | role, .tuple _ elts => inRole role elts
  | .pattern, .binOp _ left .bitOr right => inRole .pattern [left, right]
  | .pattern, .call _ func args keywords =>
    inRole .value [func] ++ inRole .pattern args ++ inRole .pattern (keywords.map (·.value))
  | .pattern, .dict _ items => items.flatMap DictItem.patternParts
  | _, .named _ target value => inRole .target [target] ++ inRole .value [value]
  | _, .listComp _ elt clauses | _, .setComp _ elt clauses | _, .generator _ elt clauses =>
    inRole .value [elt] ++ clauses.flatMap Comprehension.parts
  | _, .dictComp _ key value clauses =>
    inRole .value [key, value] ++ clauses.flatMap Comprehension.parts
  | _, e => asValues e.children

/-- What is in an item of a `with`. -/
def WithItem.parts (item : WithItem) : List Placed :=
  inRole .value [item.context] ++ inRole .target item.vars.toList

/-- What is directly inside a statement. -/
def Stmt.parts : Stmt → List Placed
  | .assign _ targets value => inRole .target targets ++ inRole .value [value]
  | .augAssign _ target _ value => inRole .target [target] ++ inRole .value [value]
  | .annAssign _ target hint value =>
    inRole .target [target] ++ inRole .value (hint :: value.toList)
  | .delete_ _ targets => inRole .target targets
  | .for_ _ target iter body orElse _ =>
    inRole .target [target] ++ inRole .value [iter] ++ asValues ((body ++ orElse).map .stmt)
  | .with_ _ items body _ => items.flatMap WithItem.parts ++ asValues (body.map .stmt)
  | .typeAlias _ name typeParams value =>
    inRole .target [name] ++ asValues (typeParams.map .typeParam) ++ inRole .value [value]
  | s => asValues s.children

/-- What is directly inside a case clause. -/
def MatchCase.parts (clause : MatchCase) : List Placed :=
  inRole .pattern [clause.pattern] ++ inRole .target clause.binding.toList ++
    inRole .value clause.guard.toList ++ asValues (clause.body.map .stmt)

namespace Placed

/-- What is directly inside a placed node. -/
def inside : Placed → List Placed
  | (_, .stmt s) => s.parts
  | (role, .expr e) => e.parts role
  | (_, .case c) => c.parts
  | (_, n) => asValues n.children

end Placed

theorem node_inRole (role : Role) (es : List Expr) :
    (inRole role es).map Prod.snd = es.map .expr := by
  simp [inRole]

theorem node_asValues (ns : List Node) : (asValues ns).map Prod.snd = ns := by
  simp [asValues]

theorem Expr.node_parts (role : Role) (e : Expr) : (e.parts role).map Prod.snd = e.children := by
  unfold Expr.parts
  split <;>
    simp [node_inRole, node_asValues, Expr.children, List.map_flatMap, DictItem.patternParts,
      DictItem.exprs, Comprehension.parts, Comprehension.exprs]

/-- The placed nodes inside are the nodes inside. -/
theorem Placed.node_inside (p : Placed) : p.inside.map Prod.snd = p.2.children := by
  obtain ⟨role, n⟩ := p
  cases n with
  | stmt s =>
    cases s <;> simp [Placed.inside, Stmt.parts, node_inRole, node_asValues, Node.children,
      Stmt.children, List.map_flatMap, WithItem.parts, WithItem.exprs]
  | expr e => exact e.node_parts role
  | case c => simp [Placed.inside, MatchCase.parts, node_inRole, node_asValues, Node.children]
  | _ => exact node_asValues _

/-! ### Visits to placed nodes -/

/-- The role in which an expression is visited once more. -/
def Expr.again? : Role → Expr → Option Role
  | .value, _ => none
  | .target, e => if e.isAssignable then none else some .value
  | .pattern, .name .. => some .target
  | .pattern, .starred .. | .pattern, .list .. | .pattern, .tuple .. | .pattern, .call ..
  | .pattern, .dict .. | .pattern, .binOp _ _ .bitOr _ => none
  | .pattern, _ => some .value

namespace Placed

/-- The visits that stand for a placed node at the beginning. -/
def opening : Placed → List Visit
  | (_, .stmt s) => [.enter s]
  | (role, .expr e) => [.expr role e]
  | (_, .param p) => [.param p]
  | (_, .handler h) => [.handler h]
  | (_, .typeParam p) => p.inner
  | (_, .case c) => c.inner

/-- The visits to a placed node itself. -/
def own : Placed → List Visit
  | (_, .stmt s) => [.enter s, .leave s]
  | (role, .expr e) => (role :: (e.again? role).toList).map (.expr · e)
  | (_, .param p) => [.param p]
  | (_, .handler h) => [.handler h]
  | (_, .typeParam _) | (_, .case _) => []

end Placed

section

variable {α : Type}

theorem opening_map {f : α → Placed} {g : α → Visit} (hf : ∀ a, (f a).opening = [g a])
    (as : List α) : (as.map f).flatMap Placed.opening = as.map g := by
  induction as with
  | nil => rfl
  | cons a as ih =>
    rw [List.map_cons, List.flatMap_cons, hf, ih, List.singleton_append, List.map_cons]

@[simp] theorem opening_inRole (role : Role) (es : List Expr) :
    (inRole role es).flatMap Placed.opening = es.map (.expr role) :=
  opening_map (fun _ => rfl) es

/-- Nodes of one kind, each with its own visit. -/
theorem opening_asValues {f : α → Node} {g : α → Visit}
    (hf : ∀ a, Placed.opening (.value, f a) = [g a]) (as : List α) :
    (asValues (as.map f)).flatMap Placed.opening = as.map g := by
  rw [asValues, List.map_map]
  exact opening_map hf as

@[simp] theorem asValues_nil : asValues [] = [] := rfl

@[simp] theorem asValues_cons (n : Node) (ns : List Node) :
    asValues (n :: ns) = (.value, n) :: asValues ns := rfl

@[simp] theorem asValues_append (ns ms : List Node) :
    asValues (ns ++ ms) = asValues ns ++ asValues ms :=
  List.map_append

@[simp] theorem opening_expr (role : Role) (e : Expr) :
    Placed.opening (role, .expr e) = [.expr role e] := rfl

@[simp] theorem opening_exprs (es : List Expr) :
    (asValues (es.map .expr)).flatMap Placed.opening = es.map (.expr .value) :=
  opening_asValues (fun _ => rfl) es

@[simp] theorem opening_keywords (keywords : List KeywordArg) :
    (asValues (keywords.map (.expr ·.value))).flatMap Placed.opening
      = keywords.map (.expr .value ·.value) :=
  opening_asValues (fun _ => rfl) keywords

@[simp] theorem opening_params (params : List Param) :
    (asValues (params.map .param)).flatMap Placed.opening = params.map .param :=
  opening_asValues (fun _ => rfl) params

@[simp] theorem opening_stmts (stmts : List Stmt) :
    (asValues (stmts.map .stmt)).flatMap Placed.opening = stmts.map .enter :=
  opening_asValues (fun _ => rfl) stmts

@[simp] theorem opening_handlers (handlers : List Handler) :
    (asValues (handlers.map .handler)).flatMap Placed.opening = handlers.map .handler :=
  opening_asValues (fun _ => rfl) handlers

@[simp] theorem opening_typeParams (params : List TypeParam) :
    (asValues (params.map .typeParam)).flatMap Placed.opening = params.flatMap TypeParam.inner := by
  rw [asValues, List.map_map, List.flatMap_map]
  rfl

@[simp] theorem opening_cases (cases : List MatchCase) :
    (asValues (cases.map .case)).flatMap Placed.opening = cases.flatMap MatchCase.inner := by
  rw [asValues, List.map_map, List.flatMap_map]
  rfl

end

theorem opening_clauses (clauses : List Comprehension) : (clauses.flatMap Comprehension.inner).Perm
      ((clauses.flatMap Comprehension.parts).flatMap Placed.opening) := by
  rw [List.flatMap_assoc]
  refine List.Perm.flatMap_left _ fun clause _ => ?_
  simp only [Comprehension.inner, Comprehension.parts, List.flatMap_append, opening_inRole]
  exact .swap ..

/-- A value leads to what is inside it. -/
theorem Expr.valueInner_perm (e : Expr) :
    e.valueInner.Perm ((e.parts .value).flatMap Placed.opening) := by
  cases e with
  | named span target value => exact .swap ..
  | listComp span elt clauses | setComp span elt clauses | generator span elt clauses
  | dictComp span key value clauses =>
    rw [Expr.valueInner, Expr.parts, List.flatMap_append, opening_inRole]
    exact List.perm_append_comm.trans ((opening_clauses clauses).append_left _)
  | dict span items =>
    have hitems : items.flatMap (DictItem.inner .value)
        = (items.flatMap DictItem.exprs).map (.expr .value) := by
      rw [List.map_flatMap]
      refine List.flatMap_congr fun item _ => ?_
      simp [DictItem.inner, DictItem.exprs, optional]
    simp [Expr.valueInner, Expr.parts, Expr.children, hitems]
  | _ => simp [Expr.valueInner, Expr.parts, Expr.children, optional]

/-- What is inside an expression in its role, it leads to at once, or when it is visited
once more. -/
theorem Expr.inner_perm (role : Role) (e : Expr) :
    match e.again? role with
    | none => (e.inner role).Perm ((e.parts role).flatMap Placed.opening)
    | some next => e.inner role = [.expr next e] ∧ e.again? next = none ∧
        (e.inner next).Perm ((e.parts role).flatMap Placed.opening) := by
  have hvalue := e.valueInner_perm
  cases role with
  | value => exact hvalue
  | target =>
    cases e with
    | name | member | subscript | tuple | list | starred =>
      simp [Expr.again?, Expr.isAssignable, Expr.inner, Expr.targetInner, Expr.parts,
        Expr.children]
    | binOp span left op right => cases op <;> exact ⟨rfl, rfl, hvalue⟩
    | _ => exact ⟨rfl, rfl, hvalue⟩
  | pattern =>
    cases e with
    | name => exact ⟨rfl, rfl, .refl _⟩
    | starred | list | tuple | call =>
      simp [Expr.again?, Expr.inner, Expr.patternInner, Expr.parts, Function.comp_def]
    | dict span items =>
      have hitems : items.flatMap (DictItem.inner .pattern)
          = (items.flatMap DictItem.patternParts).flatMap Placed.opening := by
        rw [List.flatMap_assoc]
        refine List.flatMap_congr fun item _ => ?_
        simp [DictItem.inner, DictItem.patternParts, optional]
      simp [Expr.again?, Expr.inner, Expr.patternInner, Expr.parts, hitems]
    | binOp span left op right =>
      cases op with
      | bitOr => simp [Expr.again?, Expr.inner, Expr.patternInner, Expr.parts]
      | _ => exact ⟨rfl, rfl, hvalue⟩
    | _ => exact ⟨rfl, rfl, hvalue⟩

/-- A statement leads to what is inside it. -/
theorem Stmt.inner_perm (s : Stmt) : s.inner.Perm (s.parts.flatMap Placed.opening) := by
  cases s with
  | assign span targets value =>
    simp only [Stmt.inner, Stmt.parts, List.flatMap_append, opening_inRole]
    exact (List.perm_append_singleton ..).symm
  | augAssign span target op value => exact .swap ..
  | annAssign span target hint value =>
    simp only [Stmt.inner, Stmt.parts, List.flatMap_append, opening_inRole, List.map_cons]
    exact List.perm_append_comm
  | for_ span target iter body orElse isAsync =>
    simp only [Stmt.inner, Stmt.parts, List.flatMap_append, opening_inRole, opening_stmts]
    exact .swap ..
  | with_ span items body isAsync =>
    have hitems : items.flatMap WithItem.inner
        = (items.flatMap WithItem.parts).flatMap Placed.opening := by
      rw [List.flatMap_assoc]
      refine List.flatMap_congr fun item _ => ?_
      simp [WithItem.inner, WithItem.parts, optional]
    simp [Stmt.inner, Stmt.parts, hitems]
  | typeAlias span name typeParams value =>
    simp only [Stmt.inner, Stmt.parts, List.flatMap_append, opening_inRole, opening_typeParams]
    refine List.perm_append_comm.trans (.trans (.swap ..) (.cons _ ?_))
    exact (List.perm_append_singleton ..).symm
  | _ => simp [Stmt.inner, Stmt.parts, Stmt.children, optional, Placed.opening]

/-! ### All visits -/

/-- A placed node is as large as its node. -/
theorem Placed.inside_smaller (p : Placed) : ∀ q ∈ p.inside, q.2.size < p.2.size := by
  intro q hq
  have hchild : q.2 ∈ p.2.children := by
    rw [← p.node_inside]
    exact List.mem_map_of_mem hq
  exact p.2.children_smaller _ hchild

/-- What is at and below a placed node. -/
noncomputable def Placed.preorder : Placed → List Placed :=
  Scrutiny.preorder Placed.inside_smaller

theorem Placed.preorder_eq (p : Placed) : p.preorder = p :: p.inside.flatMap Placed.preorder :=
  Scrutiny.preorder_eq _ p

/-- **The visits that stand for a placed node lead to the visits to all placed nodes at and
below it**, each as often as it is visited itself. -/
theorem Placed.trail_perm (p : Placed) :
    (p.opening.flatMap (Visit.trail fun _ => true)).Perm (p.preorder.flatMap Placed.own) := by
  -- What is inside leads to the visits to what is below.
  have hbelow : ((p.inside.flatMap Placed.opening).flatMap (Visit.trail fun _ => true)).Perm
      ((p.inside.flatMap Placed.preorder).flatMap Placed.own) := by
    rw [List.flatMap_assoc, List.flatMap_assoc]
    exact List.Perm.flatMap_left _ fun q hq => Placed.trail_perm q
  have hinside {visits : List Visit} (hvisits : visits.Perm (p.inside.flatMap Placed.opening)) :
      (visits.flatMap (Visit.trail fun _ => true)).Perm
        ((p.inside.flatMap Placed.preorder).flatMap Placed.own) :=
    (hvisits.flatMap_right _).trans hbelow
  rw [Placed.preorder_eq, List.flatMap_cons]
  obtain ⟨role, n⟩ := p
  cases n with
  | stmt s =>
    rw [Placed.opening, List.flatMap_singleton, Visit.trail_eq, if_pos (by rfl)]
    refine .cons _ (List.perm_append_comm.trans ?_)
    exact (hinside s.inner_perm).cons _
  | expr e =>
    have hinner := e.inner_perm role
    rw [Placed.opening, List.flatMap_singleton, Visit.trail, e.visits_eq (fun _ => true)]
    cases hagain : e.again? role with
    | none =>
      rw [hagain] at hinner
      simpa [Placed.own, hagain] using hinside hinner
    | some next =>
      rw [hagain] at hinner
      obtain ⟨honce, -, hinner⟩ := hinner
      rw [honce, List.flatMap_singleton, Visit.trail, e.visits_eq (fun _ => true)]
      simpa [Placed.own, hagain] using hinside hinner
  | param p =>
    have hinner : (Visit.param p).inner.Perm
        ((Placed.inside (role, .param p)).flatMap opening) := by
      simp [Visit.inner, Placed.inside, Node.children, optional]
    rw [Placed.opening, List.flatMap_singleton, Visit.trail_eq, if_pos (by rfl)]
    simpa [Placed.own, Visit.last] using hinside hinner
  | handler h =>
    have hinner :
        (Visit.handler h).inner.Perm ((Placed.inside (role, .handler h)).flatMap opening) := by
      simp [Visit.inner, Placed.inside, Node.children, optional]
    rw [Placed.opening, List.flatMap_singleton, Visit.trail_eq, if_pos (by rfl)]
    simpa [Placed.own, Visit.last] using hinside hinner
  | typeParam p =>
    refine hinside ?_
    simp [Placed.opening, TypeParam.inner, Placed.inside, Node.children, optional]
  | case c =>
    refine hinside ?_
    simp [Placed.opening, MatchCase.inner, Placed.inside, MatchCase.parts, optional]
termination_by p.2.size
decreasing_by exact p.inside_smaller q hq

/-- The statements of a module as placed nodes. -/
def Module.placed (module : Module) : List Placed := asValues (module.body.map .stmt)

/-- The visits to a module are those to all its placed nodes. -/
theorem Module.visits_perm (module : Module) :
    module.visits.Perm ((module.placed.flatMap Placed.preorder).flatMap Placed.own) := by
  have hbody : module.visits
      = (module.placed.flatMap Placed.opening).flatMap (Visit.trail fun _ => true) := by
    rw [Module.visits, ← trail_block, Module.placed, opening_stmts]
  rw [hbody, List.flatMap_assoc, List.flatMap_assoc]
  exact List.Perm.flatMap_left _ fun p _ => p.trail_perm

/-! ### The expressions visited in a role -/

/-- The expression that is visited in a role. -/
def Visit.in? (role : Role) : Visit → Option Expr
  | .expr visited e => if visited = role then some e else none
  | _ => none

/-- The expressions of a module that are visited in a role, in order of visit. -/
def Module.visitedIn (module : Module) (role : Role) : List Expr :=
  module.visits.filterMap (Visit.in? role)

/-- The expression that a placed node is, if it is visited in a role. -/
def Placed.in? (role : Role) : Placed → Option Expr
  | (own, .expr e) => if own = role ∨ e.again? own = some role then some e else none
  | _ => none

theorem Expr.again?_ne {next : Role} (h : e.again? role = some next) : next ≠ role := by
  rintro rfl
  cases next with
  | value => cases h
  | target =>
    rw [Expr.again?] at h
    split at h <;> cases h
  | pattern =>
    unfold Expr.again? at h
    split at h <;> simp_all

theorem Placed.in?_eq_some {p : Placed} :
    p.in? role = some e ↔ p.2 = .expr e ∧ (p.1 = role ∨ e.again? p.1 = some role) := by
  obtain ⟨own, n⟩ := p
  cases n with
  | expr f =>
    simp only [Placed.in?, Option.ite_none_right_eq_some, Option.some.injEq, Node.expr.injEq]
    constructor
    · rintro ⟨hrole, rfl⟩
      exact ⟨rfl, hrole⟩
    · rintro ⟨rfl, hrole⟩
      exact ⟨hrole, rfl⟩
  | _ => simp [Placed.in?]

theorem Placed.in?_own (role : Role) (p : Placed) :
    p.own.filterMap (Visit.in? role) = (p.in? role).toList := by
  obtain ⟨own, n⟩ := p
  cases n with
  | expr e =>
    cases hagain : e.again? own with
    | none =>
      by_cases hrole : own = role
      · subst hrole
        simp [Placed.own, Placed.in?, Visit.in?, hagain]
      · simp [Placed.own, Placed.in?, Visit.in?, hagain, hrole]
    | some next =>
      have hne := Expr.again?_ne hagain
      by_cases hrole : own = role
      · subst hrole
        simp [Placed.own, Placed.in?, Visit.in?, hagain, hne]
      · by_cases hnext : next = role <;>
          simp [Placed.own, Placed.in?, Visit.in?, hagain, hrole, hnext]
  | _ => simp [Placed.own, Placed.in?, Visit.in?]

/-- In each role, the expressions visited are the placed ones that are visited in it. -/
theorem Module.visitedIn_perm (module : Module) (role : Role) : (module.visitedIn role).Perm
      ((module.placed.flatMap Placed.preorder).filterMap (Placed.in? role)) := by
  rw [List.filterMap_eq_flatMap_toList]
  have hperm := module.visits_perm.filterMap (Visit.in? role)
  rw [List.filterMap_flatMap] at hperm
  simp only [Placed.in?_own] at hperm
  exact hperm

/-- A list that is some values of `f` in another order comes from a list in another order. -/
theorem exists_perm_map {α β : Type} {f : α → β} {values : List β} {as : List α}
    (h : values.Perm (as.map f)) : ∃ bs : List α, bs.Perm as ∧ bs.map f = values := by
  have hsame : List.Forall₂ (fun b a => b = f a) (as.map f) as := by
    rw [List.forall₂_map_left_iff]
    exact List.forall₂_same.mpr fun _ _ => rfl
  obtain ⟨bs, hbs, hperm⟩ := List.perm_comp_forall₂ h hsame
  refine ⟨bs, hperm, ?_⟩
  clear hperm hsame h
  induction hbs with
  | nil => rfl
  | cons heq _ ih => rw [List.map_cons, ← heq, ih]

/-! ### Places -/

/-- The placed node at a place of a module. -/
def Module.placedAt? (module : Module) : Place → Option Placed :=
  standing? Placed.inside module.placed

/-- The expression at a place of a module. -/
def Module.exprAt? (module : Module) (place : Place) : Option Expr :=
  (module.nodeAt? place).bind fun
    | .expr e => some e
    | _ => none

/-- What the node at a place of a module is there. -/
def Module.roleAt? (module : Module) (place : Place) : Option Role :=
  (module.placedAt? place).map Prod.fst

theorem Module.nodeAt?_eq (module : Module) (place : Place) :
    module.nodeAt? place = (module.placedAt? place).map Prod.snd := by
  have hmap := standing?_map (fun p => (Placed.node_inside p).symm) module.placed place
  rwa [Module.placed, node_asValues] at hmap

/-- What stands at a place, if it is an expression. -/
theorem Module.exprAt?_eq_some {place : Place} :
    module.exprAt? place = some e ↔ ∃ role, module.placedAt? place = some (role, .expr e) := by
  rw [Module.exprAt?, Module.nodeAt?_eq]
  cases module.placedAt? place with
  | none => simp
  | some p =>
    obtain ⟨role, n⟩ := p
    cases n <;> simp

/-- The places of the expressions that are visited in a role. -/
theorem Module.exists_places (module : Module) (role : Role) : ∃ places : List Place, places.Nodup ∧
      places.map module.exprAt? = (module.visitedIn role).map some ∧ ∀ place, place ∈ places ↔
        ((module.placedAt? place).bind (Placed.in? role)).isSome = true := by
  obtain ⟨all, hall⟩ := preorder_listed Placed.inside_smaller module.placed
  obtain ⟨kept, hkept⟩ := hall.filterMap (Placed.in? role)
  -- Put the places in the order of the visits.
  have hperm := (module.visitedIn_perm role).map some
  rw [Placed.preorder.eq_def, ← hkept.entries] at hperm
  obtain ⟨places, hplaces, hentries⟩ := exists_perm_map hperm
  have hsame : places.map module.exprAt?
      = places.map fun place => (module.placedAt? place).bind (Placed.in? role) := by
    refine List.map_congr_left fun place hplace => ?_
    have hsome := (hkept.complete place).mp (hplaces.mem_iff.mp hplace)
    obtain ⟨e, he⟩ := Option.isSome_iff_exists.mp hsome
    obtain ⟨p, hp, hin⟩ := Option.bind_eq_some_iff.mp he
    have hexpr : module.exprAt? place = some e :=
      Module.exprAt?_eq_some.mpr ⟨p.1, by rw [← (Placed.in?_eq_some.mp hin).1]; exact hp⟩
    exact hexpr.trans he.symm
  refine ⟨places, ?_, hsame.trans hentries, fun place => ?_⟩
  · exact hplaces.nodup_iff.mpr (hkept.ascending.imp fun hlt => ne_of_lt hlt)
  · exact hplaces.mem_iff.trans (hkept.complete place)

theorem Module.mem_visitedIn : e ∈ module.visitedIn role ↔ .expr role e ∈ module.visits := by
  rw [Module.visitedIn, List.mem_filterMap]
  constructor
  · rintro ⟨v, hv, hin⟩
    unfold Visit.in? at hin
    split at hin
    · obtain ⟨rfl, heq⟩ := Option.ite_none_right_eq_some.mp hin
      cases heq
      exact hv
    · cases hin
  · intro h
    exact ⟨_, h, by simp [Visit.in?]⟩

/-- An expression is visited in a role just where it stands in one that leads to it. -/
theorem Module.mem_visits_iff :
    .expr role e ∈ module.visits ↔ ∃ place own, module.placedAt? place = some (own, .expr e) ∧
      (own = role ∨ e.again? own = some role) := by
  obtain ⟨places, -, hentries, hmem⟩ := module.exists_places role
  have hvisited : .expr role e ∈ module.visits ↔
      ∃ place ∈ places, module.exprAt? place = some e := by
    rw [← Module.mem_visitedIn, ← List.mem_map, hentries]
    simp
  rw [hvisited]
  constructor
  · rintro ⟨place, hplace, he⟩
    obtain ⟨own, hown⟩ := Module.exprAt?_eq_some.mp he
    rw [hmem, hown, Option.bind_some, Option.isSome_iff_exists] at hplace
    obtain ⟨f, hf⟩ := hplace
    obtain ⟨heq, hrole⟩ := Placed.in?_eq_some.mp hf
    cases heq
    exact ⟨place, own, hown, hrole⟩
  · rintro ⟨place, own, hown, hrole⟩
    refine ⟨place, (hmem place).mpr ?_, Module.exprAt?_eq_some.mpr ⟨own, hown⟩⟩
    rw [hown, Option.bind_some, Placed.in?_eq_some.mpr ⟨rfl, hrole⟩]
    rfl

/-! ### Each expression once -/

/-- The forms of a pattern that are made of further patterns. -/
def Expr.isStructural : Expr → Bool
  | .starred .. | .tuple .. | .list .. | .call .. | .dict .. | .binOp _ _ .bitOr _ => true
  | _ => false

/-- The form of a name. -/
def Expr.isName : Expr → Bool
  | .name .. => true
  | _ => false

/-- An expression in a pattern is not visited as a value if it is a capture or a structure. -/
theorem Expr.again?_pattern (e : Expr) :
    e.again? .pattern = some .value ↔ ¬ (e.isName = true ∨ e.isStructural = true) := by
  cases e with
  | binOp span left op right => cases op <;> simp [Expr.again?, Expr.isName, Expr.isStructural]
  | _ => simp [Expr.again?, Expr.isName, Expr.isStructural]

/-- What is visited as a target in a parsed module is of a form that can be one. -/
theorem Module.isAssignable_of_placed (hnone : module.targetFault? = none)
    {place : Place} (h : module.placedAt? place = some (.target, .expr e)) :
    e.isAssignable = true := by
  have hv : .expr .target e ∈ module.visits := Module.mem_visits_iff.mpr ⟨place, _, h, .inl rfl⟩
  have hfault := List.findSome?_eq_none_iff.mp hnone _ hv
  by_contra hform
  rw [Visit.targetFault?, if_neg hform] at hfault
  cases hfault

/-- **Each expression of a parsed module is visited, and once at most in each role.**  Let the
places of a role be those of the expressions that are visited in it.  Then no place comes
twice in a role, every expression has a role in which it is visited, none is visited both as
a value and as a target, and those that are not visited as values are the ones in target
position, the names in patterns, and the patterns made of patterns. -/
theorem expressions_visited_once {source : String} {module : Module}
    (h : parse source = .ok module) : ∃ places : Role → List Place,
      (∀ role, (places role).map module.exprAt? = (module.visitedIn role).map some ∧
        (places role).Nodup) ∧
      (∀ place e, module.exprAt? place = some e → ∃ role, place ∈ places role) ∧
      (∀ place, ¬ (place ∈ places .value ∧ place ∈ places .target)) ∧
      ∀ place e, module.exprAt? place = some e →
        (place ∉ places .value ↔ module.roleAt? place = some .target ∨
          module.roleAt? place = some .pattern ∧ (e.isName = true ∨ e.isStructural = true)) := by
  choose places hnodup hentries hmem using module.exists_places
  have hin {role : Role} {place : Place} {own : Role} {e : Expr}
      (hplace : module.placedAt? place = some (own, .expr e)) :
      place ∈ places role ↔ own = role ∨ e.again? own = some role := by
    rw [hmem, hplace, Option.bind_some, Option.isSome_iff_exists]
    simp [Placed.in?_eq_some]
  have htarget {place : Place} {e : Expr}
      (hplace : module.placedAt? place = some (.target, .expr e)) :
      e.again? .target = none := by
    rw [Expr.again?, if_pos (Module.isAssignable_of_placed (parse_targetFault? h) hplace)]
  refine ⟨places, fun role => ⟨hentries role, hnodup role⟩, ?_, ?_, ?_⟩
  · intro place e he
    obtain ⟨own, hplace⟩ := Module.exprAt?_eq_some.mp he
    exact ⟨own, (hin hplace).mpr (.inl rfl)⟩
  · rintro place ⟨hvalue, hboth⟩
    obtain ⟨e, he⟩ := Option.isSome_iff_exists.mp ((hmem .value place).mp hvalue)
    obtain ⟨⟨own, n⟩, hplace, hown⟩ := Option.bind_eq_some_iff.mp he
    obtain rfl : n = .expr e := (Placed.in?_eq_some.mp hown).1
    rw [hin hplace] at hvalue hboth
    cases own with
    | value => simp [Expr.again?] at hboth
    | target => simp [htarget hplace] at hvalue
    | pattern =>
      obtain hnext : e.again? .pattern = some .value := by simpa using hvalue
      simp [hnext] at hboth
  · intro place e he
    obtain ⟨own, hplace⟩ := Module.exprAt?_eq_some.mp he
    rw [hin hplace, Module.roleAt?, hplace]
    cases own with
    | value => simp
    | target => simp [htarget hplace]
    | pattern => cases hname : e.isName <;> simp [Expr.again?_pattern, hname]

/-- A tuple as a target, and a pattern with a capture, a structure and a value. -/
theorem expressions_visited_once_pattern : ∃ module,
    parse "match v:\n case [k, C(1)]:\n  a, b[k] = v\n" = .ok module ∧
      ∃ places : Role → List Place,
        (∀ role, (places role).map module.exprAt? = (module.visitedIn role).map some ∧
          (places role).Nodup) ∧
        (∀ place e, module.exprAt? place = some e → ∃ role, place ∈ places role) ∧
        (∀ place, ¬ (place ∈ places .value ∧ place ∈ places .target)) ∧
        ∀ place e, module.exprAt? place = some e →
          (place ∉ places .value ↔ module.roleAt? place = some .target ∨
            module.roleAt? place = some .pattern ∧ (e.isName = true ∨ e.isStructural = true)) := by
  generalize hsource : "match v:\n case [k, C(1)]:\n  a, b[k] = v\n" = source
  have hok : (parse source).toOption.isSome = true := by
    rw [← hsource]
    decide +kernel
  cases hparse : parse source with
  | error errors => simp [hparse, Except.toOption] at hok
  | ok module => exact ⟨module, rfl, expressions_visited_once hparse⟩

end Scrutiny
