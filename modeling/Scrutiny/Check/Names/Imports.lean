/-
Imports that are made twice, and imports of everything.

Two imports of one module count as duplicates only at top level: the same import in
two functions is normal.
-/
import Scrutiny.Check.Basic

namespace Scrutiny.Imports

/-- An import of a module at top level: by its name, or of names from it. -/
inductive Use where
  | whole (name : String)
  | parts (name : String)
deriving DecidableEq, Repr

/-- The module that is imported. -/
def Use.name : Use → String
  | whole name => name
  | parts name => name

/-- How to report that a module is imported again. -/
def Use.message : Use → String
  | whole name => s!"Duplicate import: {name}"
  | parts name => s!"Duplicate import from: {name}"

/-- The modules a statement imports, relative ones left out. -/
def uses : Stmt → List Use
  | .import_ _ names => names.map (.whole ·.name)
  | .importFrom _ (some name) 0 _ => [.parts name]
  | _ => []

/-- The imports of modules imported before; those in `seen` count as such. -/
def repeated (seen : List String) : List Use → List Use
  | [] => []
  | use :: rest =>
    if seen.contains use.name then use :: repeated seen rest
    else repeated (use.name :: seen) rest

/-- The module, dots included, that a statement imports everything from. -/
def wildcard? : Stmt → Option String
  | .importFrom _ name level names =>
    if names.any (·.name == "*") then
      some (String.ofList (List.replicate level '.') ++ name.getD "")
    else none
  | _ => none

/-- Warn about duplicate and wildcard imports. -/
def check : Check :=
  (Check.ofFindings "imports" fun subject =>
    let duplicates := (repeated [] (subject.body.flatMap uses)).map Use.message
    let wildcards := ((allStmts subject.body).filterMap wildcard?).map fun name =>
      s!"Wildcard import from {name} - use explicit imports"
    (duplicates ++ wildcards).map fun message => .warning (.ofMessage message)).when
    (·.checkImports)

end Scrutiny.Imports
