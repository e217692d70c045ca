/-
What is assigned to can be assigned to.

The grammar lets any expression stand where a target is wanted, and a traversal of the
finished tree looks for one that cannot be a target.  Here the trees that pass are
described without a traversal: at every node, whatever stands in a target position is a
target (`Expr.IsTarget`), and what an augmented or annotated assignment takes is a single
one (`Module.TargetsRight`).

That the search finds nothing on such a tree is an invariant of the traversal
(`Visit.Right`): below a visit all targets are right, and what is visited as a target is
one.  That it misses nothing rests on two facts about a traversal: it meets every node,
and from a node with a target position it goes to what stands there, as a target
(`Module.visits_target`).
-/
import Scrutiny.Proofs.Grammar.Composition
import Scrutiny.Proofs.Syntax.Traversal

namespace Scrutiny

variable {e t : Expr} {v : Visit}

/-! ### Targets -/

/-- An expression can be assigned to. -/
inductive Expr.IsTarget : Expr → Prop
  | name (span : Span) (id : String) : IsTarget (.name span id)
  | member (span : Span) (value : Expr) (attr : String) : IsTarget (.member span value attr)
  | subscript (span : Span) (value index : Expr) : IsTarget (.subscript span value index)
  | tuple (span : Span) {elts : List Expr} (helts : ∀ e ∈ elts, IsTarget e) :
      IsTarget (.tuple span elts)
  | list (span : Span) {elts : List Expr} (helts : ∀ e ∈ elts, IsTarget e) :
      IsTarget (.list span elts)
  | starred (span : Span) {value : Expr} (hvalue : IsTarget value) : IsTarget (.starred span value)

/-- An expression can be assigned one value. -/
inductive Expr.IsSingle : Expr → Prop
  | name (span : Span) (id : String) : IsSingle (.name span id)
  | member (span : Span) (value : Expr) (attr : String) : IsSingle (.member span value attr)
  | subscript (span : Span) (value index : Expr) : IsSingle (.subscript span value index)

/-- What stands in the target positions of an expression. -/
def Expr.targets : Expr → List Expr
  | .named _ target _ => [target]
  | .listComp _ _ clauses | .setComp _ _ clauses | .generator _ _ clauses
  | .dictComp _ _ _ clauses => clauses.map (·.target)
  | _ => []

/-- What stands in the target positions of a statement, those of its case clauses
included. -/
def Stmt.targets : Stmt → List Expr
  | .assign _ targets _ | .delete_ _ targets => targets
  | .augAssign _ target _ _ | .annAssign _ target _ _ | .for_ _ target _ _ _ _
  | .typeAlias _ target _ _ => [target]
  | .with_ _ items _ _ => items.filterMap (·.vars)
  | .match_ _ _ cases => cases.filterMap (·.binding)
  | _ => []

/-- What stands in the target positions of a node. -/
def Node.targets : Node → List Expr
  | .stmt s => s.targets
  | .expr e => e.targets
  | _ => []

/-- What stands where a node takes a single target. -/
def Node.singleTargets : Node → List Expr
  | .stmt (.augAssign _ target _ _) | .stmt (.annAssign _ target _ _) => [target]
  | _ => []

/-- The targets of a node can be assigned to. -/
structure Node.TargetsRight (n : Node) : Prop where
  targets : ∀ t ∈ n.targets, t.IsTarget
  singleTargets : ∀ t ∈ n.singleTargets, t.IsSingle

/-- All targets in a module can be assigned to. -/
def Module.TargetsRight (module : Module) : Prop :=
  ∀ n, module.Has n → n.TargetsRight

/-- A target is of a form that can be assigned to, and leads to targets. -/
theorem Expr.isTarget_iff : e.IsTarget ↔
    e.isAssignable = true ∧ ∀ t, .expr .target t ∈ e.inner .target → t.IsTarget := by
  constructor
  · intro h
    cases h with
    | name | member | subscript =>
      simp [Expr.isAssignable, Expr.inner, Expr.targetInner]
    | tuple span helts | list span helts | starred span helts =>
      simpa [Expr.isAssignable, Expr.inner, Expr.targetInner] using helts
  · rintro ⟨hassignable, hinner⟩
    cases e with
    | name => exact .name ..
    | member => exact .member ..
    | subscript => exact .subscript ..
    | tuple span elts => exact .tuple span fun e he => hinner e (List.mem_map_of_mem he)
    | list span elts => exact .list span fun e he => hinner e (List.mem_map_of_mem he)
    | starred span value => exact .starred span (hinner value (List.mem_singleton.mpr rfl))
    | _ => cases hassignable

theorem Expr.isSingleTarget_iff : e.isSingleTarget = true ↔ e.IsSingle := by
  constructor
  · intro h
    cases e with
    | name => exact .name ..
    | member => exact .member ..
    | subscript => exact .subscript ..
    | _ => cases h
  · intro h
    cases h <;> rfl

/-! ### The search finds nothing where all targets are right -/

/-- All targets below a visit are right, and what it visits as a target is one. -/
structure Visit.Right (v : Visit) : Prop where
  below : ∀ n, v.node.Has n → n.TargetsRight
  target : ∀ t, v = .expr .target t → t.IsTarget

/-- A value leads to targets in its target positions, and nowhere else. -/
theorem Expr.target_mem_valueInner : .expr .target t ∈ e.valueInner ↔ t ∈ e.targets := by
  cases e <;>
    simp [Expr.valueInner, Expr.targets, optional, DictItem.inner, Comprehension.inner, eq_comm]

/-- So does a statement. -/
theorem Stmt.target_mem_inner {s : Stmt} : .expr .target t ∈ s.inner ↔ t ∈ s.targets := by
  cases s <;>
    simp [Stmt.inner, Stmt.targets, optional, WithItem.inner, TypeParam.inner, MatchCase.inner,
      eq_comm]

/-- In a pattern, only names are assigned to. -/
theorem Expr.isTarget_of_mem_patternInner (ht : .expr .target t ∈ e.patternInner) : t.IsTarget := by
  unfold Expr.patternInner at ht
  split at ht
  · cases List.mem_singleton.mp ht
    exact .name ..
  all_goals simp [DictItem.inner, optional] at ht

theorem Visit.Right.inner {w : Visit} (hv : v.Right) (hw : w ∈ v.inner) : w.Right := by
  refine ⟨fun n hn => hv.below n ((Visit.has_of_mem_inner hw).trans hn), ?_⟩
  rintro t rfl
  cases v with
  | enter s => exact (hv.below _ .self).targets t (Stmt.target_mem_inner.mp hw)
  | leave s => cases hw
  | expr role e =>
    cases role with
    | value => exact (hv.below _ .self).targets t (Expr.target_mem_valueInner.mp hw)
    | target => exact (Expr.isTarget_iff.mp (hv.target e rfl)).2 t hw
    | pattern => exact Expr.isTarget_of_mem_patternInner hw
  | param p | handler h => simp [Visit.inner, optional] at hw

theorem Visit.Right.last {w : Visit} (hv : v.Right) (hw : w ∈ v.last) : w.Right := by
  refine ⟨fun n hn => hv.below n (Visit.node_last hw ▸ hn), ?_⟩
  rintro t rfl
  cases v <;> simp [Visit.last] at hw

theorem Visit.Right.targetFault? (hv : v.Right) : v.targetFault? = none := by
  unfold Visit.targetFault?
  split
  · have hsingle := (hv.below _ .self).singleTargets _ (List.mem_singleton.mpr rfl)
    rw [if_pos (Expr.isSingleTarget_iff.mpr hsingle)]
  · have hsingle := (hv.below _ .self).singleTargets _ (List.mem_singleton.mpr rfl)
    rw [if_pos (Expr.isSingleTarget_iff.mpr hsingle)]
  · rw [if_pos (Expr.isTarget_iff.mp (hv.target _ rfl)).1]
  · rfl

theorem Module.TargetsRight.targetFault? {module : Module} (h : module.TargetsRight) :
    module.targetFault? = none := by
  refine List.findSome?_eq_none_iff.mpr fun v hv => ?_
  have hright := module.forall_visits (P := Visit.Right)
    (fun s hs => ⟨fun n hn => h n ⟨s, hs, hn⟩, by simp⟩)
    (fun v hv w hw => hv.inner hw) (fun v hv w hw => hv.last hw)
  exact (hright v hv).targetFault?

/-! ### The search misses nothing -/

/-- An expression with a target position leads to itself as a value, in any other role. -/
theorem Expr.inner_of_targets (ht : t ∈ e.targets) {role : Role}
    (hrole : role ≠ .value) : e.inner role = [.expr .value e] := by
  cases e with
  | named | listComp | setComp | generator | dictComp =>
    cases role with
    | value => exact absurd rfl hrole
    | target | pattern => rfl
  | _ => cases ht

/-- What stands in a target position of a module is visited as a target. -/
theorem Module.visits_target {module : Module} {n : Node} (hn : module.Has n)
    (ht : t ∈ n.targets) : .expr .target t ∈ module.visits := by
  cases n with
  | stmt s => exact Module.visits_closed hn.enter_mem_visits (Stmt.target_mem_inner.mpr ht)
  | expr e =>
    have hvalue : .expr .value e ∈ module.visits :=
      hn.value_mem_visits fun role hrole => Expr.inner_of_targets ht hrole
    exact Module.visits_closed hvalue (Expr.target_mem_valueInner.mpr ht)
  | _ => cases ht

section

variable {module : Module} (hnone : ∀ v ∈ module.visits, v.targetFault? = none)

include hnone

/-- What is visited as a target is one, if no visit finds a fault. -/
theorem Module.isTarget_of_visits (t : Expr) (ht : .expr .target t ∈ module.visits) :
    t.IsTarget := by
  refine Expr.isTarget_iff.mpr ⟨?_, fun u hu => ?_⟩
  · by_contra hform
    have hfault := hnone _ ht
    rw [Visit.targetFault?, if_neg hform] at hfault
    cases hfault
  · exact Module.isTarget_of_visits u (Module.visits_closed ht hu)
termination_by (Visit.expr .target t).weight
decreasing_by exact Visit.weight_lt hu

/-- What an augmented or annotated assignment takes is a single target. -/
theorem Module.isSingle_of_visits {n : Node} (hn : module.Has n)
    (ht : t ∈ n.singleTargets) : t.IsSingle := by
  unfold Node.singleTargets at ht
  split at ht
  case h_3 => cases ht
  all_goals
    have hfault := hnone _ hn.enter_mem_visits
    rw [List.mem_singleton.mp ht]
    by_contra hsingle
    rw [Visit.targetFault?, if_neg (mt Expr.isSingleTarget_iff.mp hsingle)] at hfault
    cases hfault

end

/-! ### The check is exact -/

/-- **The check of targets is exact.**  It passes a module if and only if everything in a
target position of its tree, however deep, can be assigned to, and what an augmented or
annotated assignment takes is a single name, attribute or subscript.  So nothing that was
parsed has a wrong target. -/
theorem targets_checked_exactly :
    (∀ module : Module, module.targetFault? = none ↔ module.TargetsRight) ∧
      ∀ (source : String) (module : Module), parse source = .ok module → module.TargetsRight := by
  have hexact (module : Module) : module.targetFault? = none ↔ module.TargetsRight := by
    refine ⟨fun h n hn => ?_, Module.TargetsRight.targetFault?⟩
    have hnone : ∀ v ∈ module.visits, v.targetFault? = none := List.findSome?_eq_none_iff.mp h
    exact ⟨fun t ht => Module.isTarget_of_visits hnone t (Module.visits_target hn ht),
      fun t ht => Module.isSingle_of_visits hnone hn ht⟩
  exact ⟨hexact, fun source module h => (hexact module).mp (parse_targetFault? h)⟩

/-- Targets of a case clause, a comprehension, an assignment and inside a target. -/
theorem targets_checked_exactly_nested : ∃ module,
    parse "match v:\n case [k] as w if [i for i, *j in (n := k)]:\n  a[m := 1], c = w\n"
      = .ok module ∧ module.TargetsRight := by
  generalize hsource :
    "match v:\n case [k] as w if [i for i, *j in (n := k)]:\n  a[m := 1], c = w\n" = source
  have hok : (parse source).toOption.isSome = true := by
    rw [← hsource]
    decide +kernel
  cases hparse : parse source with
  | error errors => simp [hparse, Except.toOption] at hok
  | ok module => exact ⟨module, rfl, targets_checked_exactly.2 _ module hparse⟩

end Scrutiny
