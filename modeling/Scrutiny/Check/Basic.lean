/-
Checks.

A check looks at a text, its tree and the configuration, and finds things.  Checks
are independent of each other: each is given the same subject, and a check that
fails finds nothing and leaves the others alone.
-/
import Scrutiny.Config.Basic
import Scrutiny.Report.Verdict
import Scrutiny.Tree

namespace Scrutiny

/-- What a check looks at. -/
structure Subject where
  source : String
  tree : Tree
  config : Config

namespace Subject

/-- The characters of the text. -/
def chars (subject : Subject) : List Char := subject.source.toList

/-- The top-level statements. -/
def body (subject : Subject) : List Stmt := subject.tree.module.body

/-- The line a byte offset falls on. -/
def lineOf (subject : Subject) (offset : Nat) : Nat := subject.tree.lineOf offset

/-- The context of a line, as wide as configured. -/
def context (subject : Subject) (line : Nat) : Context :=
  .ofSource subject.source line none subject.config.contextLines

/-- A diagnostic that points at a line. -/
def diagnosticAt (subject : Subject) (line : Nat) (message : String) : Diagnostic :=
  (Diagnostic.ofMessage message).pointingAt (subject.context line)

end Subject

/-- How a check can fail. -/
inductive CheckFault where
  /-- It gave up. -/
  | failed
  /-- It broke down. -/
  | crashed
deriving DecidableEq, Repr

/-- An independent check. -/
structure Check where
  name : String
  /-- Whether the check runs under a configuration. -/
  enabled : Config → Bool
  run : Subject → Except CheckFault (List Finding)

namespace Check

/-- A check that always runs and never fails. -/
def ofFindings (name : String) (find : Subject → List Finding) : Check :=
  ⟨name, fun _ => true, fun subject => .ok (find subject)⟩

/-- Run a check only under some configurations. -/
def when (check : Check) (enabled : Config → Bool) : Check := { check with enabled }

/-- What a check finds; nothing if it fails. -/
def findings (check : Check) (subject : Subject) : List Finding :=
  match check.run subject with
  | .ok findings => findings
  | .error _ => []

/-- What the enabled ones of some checks find, in order. -/
def runAll (checks : List Check) (subject : Subject) : List Finding :=
  (checks.filter (·.enabled subject.config)).flatMap (·.findings subject)

end Check

end Scrutiny
