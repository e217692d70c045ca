/-
Names that are assigned and never read.

There is one scope for the whole module: a read anywhere counts for every assignment
of the name.  Parameters and loop variables are not assigned in this sense, and a
name that starts with an underscore is meant not to be read.
-/
import Scrutiny.Check.Basic
import Scrutiny.Syntax.Target

namespace Scrutiny

/-- The names that a visit meets being assigned, with their offsets. -/
def Visit.assigned : Visit → List (String × Nat)
  | .enter (.assign _ targets _) => targetNamesAll targets
  | .enter (.annAssign _ target _ (some _)) => target.targetNames
  | .expr .value (.named _ target _) => target.targetNames
  | _ => []

/-- The names that a visit meets being read: values, names that an augmented
assignment changes, and the names in the fields of formatted strings. -/
def Visit.read : Visit → List String
  | .enter (.augAssign _ (.name _ id) _ _) => [id]
  | .expr .value (.name _ id) => [id]
  | .expr .value (.string _ literal) => literal.fields
  | _ => []

/-- The first assignment of each name that a module assigns and never reads. -/
def Module.unusedNames (module : Module) : List (String × Nat) :=
  let visits := module.visits
  let read := visits.flatMap Visit.read
  ((visits.flatMap Visit.assigned).eraseDupsBy (·.1 == ·.1)).filter fun (name, _) =>
    !read.contains name && !name.startsWith "_"

namespace Unused

/-- Warn about every name that is assigned and never read. -/
def check : Check :=
  (Check.ofFindings "unused-bindings" fun subject =>
    subject.tree.module.unusedNames.map fun (name, offset) =>
      .warning (subject.diagnosticAt (subject.lineOf offset) s!"Unused variable: {name}")).when
    (·.level.isStrict)

end Unused

end Scrutiny
