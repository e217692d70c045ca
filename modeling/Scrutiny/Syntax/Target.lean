/-
What may be assigned to.

The grammar lets any expression stand where a target is wanted; which of them are
targets is checked on the finished tree.  Names, attributes, subscripts, and
tuples, lists and stars of targets can be assigned to.  An augmented or annotated
assignment takes a single name, attribute or subscript.
-/
import Scrutiny.Syntax.Visit

namespace Scrutiny

/-- Whether an expression of this form can be a target. -/
def Expr.isAssignable : Expr → Bool
  | .name .. | .member .. | .subscript .. | .tuple .. | .list .. | .starred .. => true
  | _ => false

/-- Whether an expression is a target that takes a single value. -/
def Expr.isSingleTarget : Expr → Bool
  | .name .. | .member .. | .subscript .. => true
  | _ => false

mutual

/-- The names that a target takes, with the offset of each. -/
def Expr.targetNames : Expr → List (String × Nat)
  | .name span id => [(id, span.start)]
  | .tuple _ elts => targetNamesAll elts
  | .list _ elts => targetNamesAll elts
  | .starred _ value => value.targetNames
  | _ => []

/-- The names that some targets take. -/
def targetNamesAll : List Expr → List (String × Nat)
  | [] => []
  | e :: es => e.targetNames ++ targetNamesAll es

end

/-- What is wrong with a target. -/
inductive TargetFault where
  /-- An augmented assignment to something of the described form. -/
  | augmented (form : String)
  | annotated
  /-- An assignment to something of the described form. -/
  | unassignable (form : String)
deriving DecidableEq, Repr

/-- The wording of a fault. -/
def TargetFault.message : TargetFault → String
  | augmented form => s!"'{form}' is an illegal expression for augmented assignment"
  | annotated => "only single target (not tuple) can be annotated"
  | unassignable form => s!"cannot assign to {form}"

/-- What is wrong with the target that a visit meets, and where. -/
def Visit.targetFault? : Visit → Option (TargetFault × Span)
  | .enter (.augAssign _ target _ _) =>
    if target.isSingleTarget then none else some (.augmented target.describe, target.span)
  | .enter (.annAssign _ target _ _) =>
    if target.isSingleTarget then none else some (.annotated, target.span)
  | .expr .target e =>
    if e.isAssignable then none else some (.unassignable e.describe, e.span)
  | _ => none

/-- The first thing wrong with a target of a module, in order of visit. -/
def Module.targetFault? (module : Module) : Option (TargetFault × Span) :=
  module.visits.findSome? Visit.targetFault?

end Scrutiny
