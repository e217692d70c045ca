/-
Parameter kinds.

A parameter list is written with two markers: what stands before `/` is passed by
position only, and what stands after `*` or `*args` by keyword only.
-/
import Scrutiny.Syntax.Expr

namespace Scrutiny

/-- What a parameter list is written with: parameters and markers. -/
inductive ParamItem where
  | slash
  | star
  | param (param : Param)

/-- Whether an item is the marker `/`. -/
def ParamItem.isSlash : ParamItem → Bool
  | slash => true
  | _ => false

/-- Give each parameter its kind, knowing whether a `/` is still to come and
whether a star has gone by. -/
def assignKinds (slashAhead afterStar : Bool) : List ParamItem → List Param
  | [] => []
  | .slash :: items => assignKinds false afterStar items
  | .star :: items => assignKinds slashAhead true items
  | .param p :: items =>
    match p.kind with
    | .varArgs => p :: assignKinds slashAhead true items
    | .kwArgs => p :: assignKinds slashAhead afterStar items
    | kind =>
      let kind :=
        if slashAhead then .positionalOnly
        else if afterStar then .keywordOnly
        else kind
      { p with kind } :: assignKinds slashAhead afterStar items

/-- The parameters of a list as written, each with its kind. -/
def resolveParams (items : List ParamItem) : List Param :=
  assignKinds (items.any ParamItem.isSlash) false items

end Scrutiny
