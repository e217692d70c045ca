/-
Advice on loops that do more work than they need to.
-/
import Scrutiny.Check.Basic
import Scrutiny.Syntax.Visit
import Scrutiny.Text.Pattern

namespace Scrutiny

/-- Whether an expression is a call of `range` whose first argument is a call of
`len`. -/
def Expr.isRangeLen : Expr → Bool
  | .call _ func (.call _ inner _ _ :: _) _ =>
    func.name? == some "range" && inner.name? == some "len"
  | _ => false

/-- The name whose `append` an expression calls, if it does. -/
def Expr.appendsTo? : Expr → Option String
  | .call _ (.member _ value "append") _ _ => value.name?
  | _ => none

/-- Whether a statement is a loop. -/
def Stmt.isLoop : Stmt → Bool
  | .for_ .. => true
  | .while_ .. => true
  | _ => false

/-- Whether a statement is a loop over `range(len(...))`. -/
def Stmt.loopsOverRangeLen : Stmt → Bool
  | .for_ _ _ iter _ _ _ => iter.isRangeLen
  | _ => false

/-- What has been seen of the loops of a module. -/
structure LoopTally where
  /-- How many loops are around. -/
  depth : Nat
  /-- How many loops over `range(len(...))` there were. -/
  rangeLens : Nat
  /-- How often each name was appended to inside a loop, in the order they came up. -/
  appends : List (String × Nat)
deriving DecidableEq, Repr

namespace LoopTally

/-- Nothing seen yet. -/
def empty : LoopTally := ⟨0, 0, []⟩

/-- Count one more for a name. -/
def countOne (name : String) : List (String × Nat) → List (String × Nat)
  | [] => [(name, 1)]
  | (other, count) :: rest =>
    if other = name then (other, count + 1) :: rest else (other, count) :: countOne name rest

/-- Take a visit into account. -/
def step (tally : LoopTally) : Visit → LoopTally
  | .enter s =>
    { tally with
      depth := if s.isLoop then tally.depth + 1 else tally.depth
      rangeLens := if s.loopsOverRangeLen then tally.rangeLens + 1 else tally.rangeLens }
  | .leave s => { tally with depth := if s.isLoop then tally.depth - 1 else tally.depth }
  | .expr .value e =>
    match e.appendsTo? with
    | some name =>
      if 0 < tally.depth then { tally with appends := countOne name tally.appends } else tally
    | none => tally
  | _ => tally

/-- The tally of a module. -/
def ofModule (module : Module) : LoopTally :=
  module.visits.foldl step empty

end LoopTally

namespace SlowLoops

open Pattern

/-- A text added to something on the line after the head of a loop. -/
def concatInLoop : Pattern :=
  concat [literal "for", restOfLine, literal ":", blanks, literal "\n", restOfLine,
    literal "+=", blanks, quote]

/-- Advise on slow loops. -/
def check : Check := .ofFindings "performance" fun subject =>
  let tally := LoopTally.ofModule subject.tree.module
  let ranges := List.replicate tally.rangeLens "Use enumerate() instead of range(len())"
  let appends := (tally.appends.filter (2 ≤ ·.2)).map fun (name, _) =>
    s!"Consider using list comprehension instead of repeated append() for '{name}'"
  let concats :=
    if concatInLoop.isIn subject.chars then ["Use join() for string concatenation in loops"]
    else []
  (ranges ++ appends ++ concats).map .suggestion

end SlowLoops

end Scrutiny
