/-
Visits to recast trees.

The traversal of a tree looks at its shape, never at spans or names, so the visits to a
recast tree are the recast visits to the tree (`blockVisits_recast`).  What is wrong with a
target is then wrong with it wherever the tree stands and whatever its names are.
-/
import Scrutiny.Proofs.Syntax.Recast
import Scrutiny.Proofs.Syntax.Traversal
import Scrutiny.Syntax.Target

namespace Scrutiny

/-- A visit to a recast tree. -/
@[simp] def Visit.recast (m : Recast) : Visit → Visit
  | .enter stmt => .enter (m.stmt stmt)
  | .leave stmt => .leave (m.stmt stmt)
  | .expr role e => .expr role (m.expr e)
  | .param p => .param (m.param p)
  | .handler h => .handler (m.handler h)

variable (m : Recast)

@[simp] theorem optional_recast (role : Role) (value : Option Expr) :
    optional role (value.map m.expr) = (optional role value).map (Visit.recast m) := by
  cases value with
  | none => rfl
  | some e => rfl

@[simp] theorem KeywordArg.value_recast (k : KeywordArg) :
    (m.keyword k).value = m.expr k.value := by
  obtain ⟨arg, value⟩ := k
  rw [Recast.keyword_mk]

/-! ### Where a visit leads -/

theorem Comprehension.inner_recast (clause : Comprehension) :
    (m.clause clause).inner = clause.inner.map (Visit.recast m) := by
  obtain ⟨target, iter, conditions, isAsync⟩ := clause
  simp [Comprehension.inner]

theorem DictItem.inner_recast (role : Role) (item : DictItem) :
    (m.item item).inner role = (item.inner role).map (Visit.recast m) := by
  obtain ⟨key, value⟩ := item
  simp [DictItem.inner]

theorem Expr.inner_recast (role : Role) (e : Expr) :
    (m.expr e).inner role = (e.inner role).map (Visit.recast m) := by
  have hitems (role : Role) := flatMap_inner_map (DictItem.inner_recast m role)
  have hclauses := flatMap_inner_map (Comprehension.inner_recast m)
  cases role with
  | value => cases e <;> simp [Expr.inner, Expr.valueInner, hitems, hclauses, Function.comp_def]
  | target => cases e <;> simp [Expr.inner, Expr.targetInner]
  | pattern =>
    cases e with
    | binOp span left op right => cases op <;> simp [Expr.inner, Expr.patternInner]
    | _ => simp [Expr.inner, Expr.patternInner, hitems, Function.comp_def]

theorem WithItem.inner_recast (item : WithItem) :
    (m.withItem item).inner = item.inner.map (Visit.recast m) := by
  obtain ⟨context, vars⟩ := item
  simp [WithItem.inner]

theorem TypeParam.inner_recast (param : TypeParam) :
    (m.typeParam param).inner = param.inner.map (Visit.recast m) := by
  obtain ⟨name, bound, span⟩ := param
  simp [TypeParam.inner]

theorem MatchCase.inner_recast (clause : MatchCase) :
    (m.matchCase clause).inner = clause.inner.map (Visit.recast m) := by
  obtain ⟨pattern, binding, guard, body, span⟩ := clause
  simp [MatchCase.inner]

theorem Stmt.inner_recast (s : Stmt) : (m.stmt s).inner = s.inner.map (Visit.recast m) := by
  have hitems := flatMap_inner_map (WithItem.inner_recast m)
  have hcases := flatMap_inner_map (MatchCase.inner_recast m)
  have hbounds := flatMap_inner_map (TypeParam.inner_recast m)
  cases s with
  | function span definition =>
    obtain ⟨name, typeParams, params, returns, body, decorators, isAsync⟩ := definition
    simp [Stmt.inner, hbounds, Function.comp_def]
  | class_ span definition =>
    obtain ⟨name, typeParams, bases, keywords, body, decorators⟩ := definition
    simp [Stmt.inner, hbounds, Function.comp_def]
  | _ => simp [Stmt.inner, hitems, hcases, hbounds, Function.comp_def]

theorem Visit.inner_recast (v : Visit) : (v.recast m).inner = v.inner.map (Visit.recast m) := by
  cases v with
  | enter s => exact s.inner_recast m
  | leave s => rfl
  | expr role e => exact e.inner_recast m role
  | param p =>
    obtain ⟨name, kind, hint, default, span⟩ := p
    simp [Visit.inner]
  | handler h =>
    obtain ⟨type, isStar, name, body, span⟩ := h
    simp [Visit.inner]

theorem blockVisits_recast {into : Stmt → Bool} (hinto : ∀ s, into (m.stmt s) = into s)
    (stmts : List Stmt) :
    blockVisits into (stmts.map m.stmt) = (blockVisits into stmts).map (Visit.recast m) := by
  have hblock : (stmts.map m.stmt).map Visit.enter
      = (stmts.map Visit.enter).map (Visit.recast m) := by
    simp
  rw [← trail_block, hblock, List.flatMap_map, ← trail_block, List.map_flatMap]
  refine List.flatMap_congr fun v _ => Visit.trail_map (Visit.inner_recast m) ?_ ?_ v
  · intro v
    cases v <;> rfl
  · intro v
    cases v with
    | enter s => exact hinto s
    | _ => rfl

/-! ### Targets -/

theorem blockVisits_append (into : Stmt → Bool) (front back : List Stmt) :
    blockVisits into (front ++ back) = blockVisits into front ++ blockVisits into back := by
  induction front with
  | nil => simp [blockVisits]
  | cons s front ih => simp [blockVisits, ih]

theorem Expr.isAssignable_recast (e : Expr) : (m.expr e).isAssignable = e.isAssignable := by
  cases e <;> simp [Expr.isAssignable]

theorem Expr.isSingleTarget_recast (e : Expr) : (m.expr e).isSingleTarget = e.isSingleTarget := by
  cases e <;> simp [Expr.isSingleTarget]

theorem Expr.describe_recast (e : Expr) : (m.expr e).describe = e.describe := by
  cases e with
  | constant _ value =>
    rw [Recast.constant]
    cases value with
    | bool value => cases value <;> rfl
    | _ => rfl
  | _ => simp [Expr.describe]

theorem Visit.targetFault?_recast (visit : Visit) : (visit.recast m).targetFault?
      = visit.targetFault?.map fun found => (found.1, found.2.respan m.offset) := by
  cases visit with
  | enter s =>
    cases s with
    | augAssign _ target _ _ =>
      simp only [Visit.recast, Recast.augAssign, Visit.targetFault?, Expr.isSingleTarget_recast,
        Expr.describe_recast]
      split
      · rfl
      · simp
    | annAssign _ target _ _ =>
      simp only [Visit.recast, Recast.annAssign, Visit.targetFault?, Expr.isSingleTarget_recast]
      split
      · rfl
      · simp
    | _ => simp [Visit.targetFault?]
  | expr role e =>
    cases role with
    | target =>
      simp only [Visit.recast, Visit.targetFault?, Expr.isAssignable_recast, Expr.describe_recast]
      split
      · rfl
      · simp
    | value | pattern => rfl
  | leave | param | handler => rfl

/-- The first thing wrong with a target is the same in recast trees, and moves along. -/
theorem Module.targetFault?_recast (body : List Stmt) : (⟨body.map m.stmt⟩ : Module).targetFault?
      = (⟨body⟩ : Module).targetFault?.map fun found => (found.1, found.2.respan m.offset) := by
  have hinto (s : Stmt) : (fun _ => true) (m.stmt s) = (fun _ => true) s := rfl
  unfold Module.targetFault? Module.visits
  rw [blockVisits_recast m hinto]
  induction blockVisits (fun _ => true) body with
  | nil => rfl
  | cons visit visits ih =>
    rw [List.map_cons, List.findSome?_cons, List.findSome?_cons, Visit.targetFault?_recast, ih]
    cases visit.targetFault? with
    | none => rfl
    | some found => rfl

theorem Module.targetFault?_append (front back : List Stmt) :
    (⟨front ++ back⟩ : Module).targetFault?
      = (⟨front⟩ : Module).targetFault?.or (⟨back⟩ : Module).targetFault? := by
  unfold Module.targetFault? Module.visits
  rw [blockVisits_append, List.findSome?_append]

end Scrutiny
