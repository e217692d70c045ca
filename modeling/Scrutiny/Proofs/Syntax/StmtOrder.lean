/-
The statements of a module, in order.

A traversal enters statements on its way through all parts of a tree, while `allStmts`
goes from block to block and looks at nothing else.  Both come to the same statements in
the same order (`Visit.entered_trail`), and that is the order of the tree itself
(`Node.stmts_preorder`): each statement once, before the ones inside it.

The three recursions are compared by the statements that are nearest below a visit
(`Visit.nearest`) or a node (`Node.nearest`).
-/
import Scrutiny.Proofs.Syntax.Places
import Scrutiny.Proofs.Syntax.Traversal

namespace Scrutiny

theorem allStmts_eq_flatMap (stmts : List Stmt) :
    allStmts stmts = stmts.flatMap Stmt.withInner := by
  induction stmts with
  | nil => simp [allStmts]
  | cons s stmts ih => rw [allStmts, ih, List.flatMap_cons]

theorem allStmts_flatMap {α : Type} (f : α → List Stmt) (as : List α) :
    allStmts (as.flatMap f) = as.flatMap fun a => allStmts (f a) := by
  simp only [allStmts_eq_flatMap, List.flatMap_assoc]

/-! ### In a traversal -/

/-- The statement that a visit enters. -/
def Visit.entered? : Visit → Option Stmt
  | .enter s => some s
  | _ => none

/-- The statements that a visit comes to first, its own included. -/
def Visit.nearest : Visit → List Stmt
  | .enter s => [s]
  | .handler h => h.body
  | _ => []

section

variable {α : Type}

-- Both sides of what follows are brought to the form `as.flatMap body`, and drop what has none.

@[simp] theorem nearest_map {f : α → Visit} (as : List α) :
    (as.map f).flatMap Visit.nearest = as.flatMap fun a => (f a).nearest :=
  List.flatMap_map ..

@[simp] theorem flatMap_nothing (as : List α) : (as.flatMap fun _ => ([] : List Stmt)) = [] := by
  simp

@[simp] theorem flatten_bodies (body : α → List Stmt) (as : List α) :
    (as.map body).flatten = as.flatMap body :=
  List.flatMap_def.symm

end

@[simp] theorem nearest_optional (role : Role) (e : Option Expr) :
    (optional role e).flatMap Visit.nearest = [] := by
  simp [optional, Visit.nearest]

/-- An expression leads to no statements. -/
theorem Expr.nearest_inner (role : Role) (e : Expr) :
    (e.inner role).flatMap Visit.nearest = [] := by
  cases role with
  | value =>
    cases e <;>
      simp [Expr.inner, Expr.valueInner, Visit.nearest, DictItem.inner, Comprehension.inner,
        List.flatMap_assoc]
  | target => cases e <;> simp [Expr.inner, Expr.targetInner, Visit.nearest]
  | pattern =>
    cases e with
    | binOp span left op right => cases op <;> simp [Expr.inner, Expr.patternInner, Visit.nearest]
    | _ => simp [Expr.inner, Expr.patternInner, Visit.nearest, DictItem.inner, List.flatMap_assoc]

/-- A statement leads to those in its blocks, in order. -/
theorem Stmt.nearest_inner (s : Stmt) : s.inner.flatMap Visit.nearest = s.blocks.flatten := by
  cases s <;>
    simp [Stmt.inner, Stmt.blocks, Visit.nearest, WithItem.inner, TypeParam.inner, MatchCase.inner,
      List.flatMap_assoc]

/-- The statements that a visit comes to next, behind its own. -/
def Visit.behind : Visit → List Stmt
  | .enter s => s.blocks.flatten
  | v => v.nearest

theorem Visit.nearest_inner (v : Visit) : v.inner.flatMap Visit.nearest = v.behind := by
  cases v with
  | enter s => exact s.nearest_inner
  | leave s => rfl
  | expr role e => exact e.nearest_inner role
  | param p => simp [Visit.inner, Visit.behind, Visit.nearest]
  | handler h => simp [Visit.inner, Visit.behind, Visit.nearest]

/-- From a visit on, a traversal enters the nearest statements and all in their blocks. -/
theorem Visit.entered_trail (v : Visit) :
    (v.trail fun _ => true).filterMap Visit.entered? = allStmts v.nearest := by
  have hmade : v.isMade (fun _ => true) = true := by cases v <;> rfl
  have hinner : (v.inner.flatMap (Visit.trail fun _ => true)).filterMap Visit.entered?
      = allStmts v.behind := by
    rw [List.filterMap_flatMap, ← v.nearest_inner, allStmts_flatMap]
    exact List.flatMap_congr fun w _ => Visit.entered_trail w
  rw [Visit.trail_eq, if_pos hmade, List.filterMap_cons, List.filterMap_append, hinner]
  cases v with
  | enter s => simp [Visit.entered?, Visit.last, Visit.behind, Visit.nearest, allStmts,
      Stmt.withInner_eq]
  | _ => simp [Visit.entered?, Visit.last, Visit.behind]
termination_by v.weight
decreasing_by exact Visit.weight_lt ‹_›

/-- A traversal of a module enters all statements, in order. -/
theorem Module.entered_visits (module : Module) :
    module.visits.filterMap Visit.entered? = allStmts module.body := by
  rw [Module.visits, ← trail_block, List.filterMap_flatMap, List.flatMap_map, allStmts_eq_flatMap]
  refine List.flatMap_congr fun s _ => ?_
  rw [Visit.entered_trail, Visit.nearest, allStmts_eq_flatMap, List.flatMap_singleton]

/-! ### In the tree -/

/-- The statement that a node is. -/
def Node.stmt? : Node → Option Stmt
  | .stmt s => some s
  | _ => none

/-- The statements that come first at or below a node. -/
def Node.nearest : Node → List Stmt
  | .stmt s => [s]
  | .handler h => h.body
  | .case c => c.body
  | _ => []

/-- What is at and below a node, each node before the ones inside it. -/
noncomputable def Node.preorder : Node → List Node :=
  Scrutiny.preorder Node.children_smaller

/-- What stands at a place of a module. -/
def Module.nodeAt? (module : Module) : Place → Option Node :=
  standing? Node.children (module.body.map .stmt)

/-- The statement that stands at a place of a module. -/
def Module.stmtAt? (module : Module) (place : Place) : Option Stmt :=
  (module.nodeAt? place).bind Node.stmt?

/-- The statements nearest below a statement are those in its blocks. -/
theorem Stmt.nearest_children (s : Stmt) : s.children.flatMap Node.nearest = s.blocks.flatten := by
  cases s <;> simp [Stmt.children, Stmt.blocks, Node.nearest, List.flatMap_map]

/-- The statements that come next below a node, behind its own. -/
def Node.behind : Node → List Stmt
  | .stmt s => s.blocks.flatten
  | n => n.nearest

@[simp] theorem nearest_nodes (es : List Expr) : (es.map Node.expr).flatMap Node.nearest = [] := by
  simp [List.flatMap_map, Node.nearest]

theorem Node.nearest_children (n : Node) : n.children.flatMap Node.nearest = n.behind := by
  cases n with
  | stmt s => exact s.nearest_children
  | expr e => cases e <;> simp [Node.children, Expr.children, Node.behind, Node.nearest]
  | _ => simp [Node.children, Node.behind, Node.nearest, List.flatMap_map]

/-- At and below a node there are the nearest statements and all in their blocks. -/
theorem Node.stmts_preorder (n : Node) : n.preorder.filterMap Node.stmt? = allStmts n.nearest := by
  have hinner : (n.children.flatMap Node.preorder).filterMap Node.stmt? = allStmts n.behind := by
    rw [List.filterMap_flatMap, ← n.nearest_children, allStmts_flatMap]
    exact List.flatMap_congr fun m _ => Node.stmts_preorder m
  have hpreorder : n.preorder = n :: n.children.flatMap Node.preorder := preorder_eq _ n
  rw [hpreorder, List.filterMap_cons, hinner]
  cases n with
  | stmt s => simp [Node.stmt?, Node.behind, Node.nearest, allStmts, Stmt.withInner_eq]
  | _ => rfl
termination_by n.size
decreasing_by exact n.children_smaller _ ‹_›

/-- The list of all statements goes through the places where there is one. -/
theorem Module.allStmts_listed (module : Module) :
    ∃ places, Listed module.stmtAt? places (allStmts module.body) := by
  obtain ⟨places, hplaces⟩ := preorder_listed Node.children_smaller (module.body.map .stmt)
  have hstmts : ((module.body.map Node.stmt).flatMap
      (Scrutiny.preorder Node.children_smaller)).filterMap
      Node.stmt? = allStmts module.body := by
    rw [List.filterMap_flatMap, List.flatMap_map, allStmts_eq_flatMap]
    refine List.flatMap_congr fun s _ => ?_
    have hs := (Node.stmt s).stmts_preorder
    rwa [Node.nearest, allStmts_eq_flatMap, List.flatMap_singleton] at hs
  exact hstmts ▸ hplaces.filterMap Node.stmt?

/-! ### The two traversals -/

/-- **A traversal and the list of all statements agree.**  The statements that a
traversal enters are the list of all statements, in order, and that list goes from a
statement to its blocks and on.  It has one entry for every place of the tree where there
is a statement, and a statement comes before the ones below it. -/
theorem entered_once_parent_first (module : Module) :
    module.visits.filterMap Visit.entered? = allStmts module.body ∧
      (∀ s rest, allStmts (s :: rest) = s :: (s.blocks.flatMap allStmts ++ allStmts rest)) ∧
      ∃ places, Listed module.stmtAt? places (allStmts module.body) := by
  refine ⟨module.entered_visits, fun s rest => ?_, module.allStmts_listed⟩
  rw [allStmts, Stmt.withInner_eq, ← List.flatMap_id', allStmts_flatMap, List.cons_append]

end Scrutiny
