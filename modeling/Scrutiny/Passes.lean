/-
The three passes over a text.

The syntax pass asks whether a text has a tree, and looks for what is wrong with its
form; the logic pass looks for likely mistakes and only ever warns; the advice pass
suggests improvements.  Each pass is a list of checks.  A text without a tree gets
one answer from each pass, and no check runs.
-/
import Scrutiny.Advice.Clarity
import Scrutiny.Advice.Exposure
import Scrutiny.Advice.Pitfalls
import Scrutiny.Advice.SlowLoops
import Scrutiny.Advice.Style
import Scrutiny.Check.Failure
import Scrutiny.Check.Flow.Endless
import Scrutiny.Check.Flow.Returnless
import Scrutiny.Check.Flow.Unreachable
import Scrutiny.Check.Indentation
import Scrutiny.Check.Names.Imports
import Scrutiny.Check.Names.Undefined
import Scrutiny.Check.Names.Unused
import Scrutiny.Check.Scan.Characters
import Scrutiny.Check.Scan.Hazards
import Scrutiny.Check.Scan.Smells
import Scrutiny.TreeCache

namespace Scrutiny

/-- The checks of the passes, in the order they run. -/
structure Checks where
  syntaxChecks : List Check
  logicChecks : List Check
  /-- Checks of the logic pass whose findings are about errors at run time. -/
  runtimeChecks : List Check
  adviceChecks : List Check

namespace Checks

/-- The checks there are without any added.  Two have a name and a place and find
nothing yet. -/
def standard : Checks where
  syntaxChecks :=
    [Indentation.check, Undefined.check, Imports.check, Smells.check, Hazards.check,
      Characters.check]
  logicChecks :=
    [Unreachable.check, Unused.check, Endless.check, Returnless.check,
      .ofFindings "type-consistency" fun _ => []]
  runtimeChecks := [.ofFindings "runtime-risks" fun _ => []]
  adviceChecks :=
    [Style.check, SlowLoops.check, Clarity.check, Pitfalls.check, Exposure.check]

/-- All the checks of the passes. -/
def all (checks : Checks) : List Check :=
  checks.syntaxChecks ++ checks.logicChecks ++ checks.runtimeChecks ++ checks.adviceChecks

/-- Add a check to the syntax pass. -/
def addSyntax (checks : Checks) (check : Check) : Checks :=
  { checks with syntaxChecks := checks.syntaxChecks ++ [check] }

/-- Add a check to the logic pass; what it finds is a warning. -/
def addLogic (checks : Checks) (check : Check) : Checks :=
  { checks with logicChecks := checks.logicChecks ++ [check] }

/-- Add a check to the advice pass. -/
def addAdvice (checks : Checks) (check : Check) : Checks :=
  { checks with adviceChecks := checks.adviceChecks ++ [check] }

/-! ### The answers of the passes -/

/-- The verdict on a text of white space alone. -/
def blankVerdict : Verdict := Verdict.empty.addError "Empty code provided" none

/-- The findings of the syntax pass on a text with a tree. -/
def syntaxFindings (checks : Checks) (subject : Subject) : List Finding :=
  Check.runAll checks.syntaxChecks subject

/-- The verdict of the syntax pass on a text that is not blank. -/
def syntaxVerdict (checks : Checks) (config : Config) (source : String) :
    TreeOutcome → Verdict
  | .error failure => .ofFindings [Failure.finding source failure config.contextLines]
  | .ok tree => .ofFindings (checks.syntaxFindings ⟨source, tree, config⟩)

/-- What to say of the logic of a text without a tree. -/
def illogical : Finding :=
  .error <| (Diagnostic.ofMessage
      "Cannot perform logic validation on syntactically invalid code").suggestAll
    ["Fix syntax errors first", "Run syntax validation to see specific errors"]

/-- The warnings of the logic pass on a text with a tree. -/
def logicWarnings (checks : Checks) (subject : Subject) : List String :=
  (Check.runAll checks.logicChecks subject).map Finding.text ++
    (Check.runAll checks.runtimeChecks subject).map
      fun finding => s!"Potential runtime error: {finding.text}"

/-- The verdict of the logic pass. -/
def logicVerdict (checks : Checks) (config : Config) (source : String) :
    TreeOutcome → Verdict
  | .error _ => .ofFindings [illogical]
  | .ok tree => (checks.logicWarnings ⟨source, tree, config⟩).foldl Verdict.addWarning .empty

/-- The advice on a text, each piece once. -/
def advice (checks : Checks) (config : Config) (source : String) :
    TreeOutcome → List String
  | .error _ => ["Fix syntax errors before requesting improvements"]
  | .ok tree =>
    ((Check.runAll checks.adviceChecks ⟨source, tree, config⟩).map Finding.text).eraseDups

/-- Everything that the syntax and the logic pass find in a text, the checks of run
time errors left out. -/
def report (checks : Checks) (config : Config) (source : String) : TreeOutcome → List Finding
  | .error failure => [Failure.finding source failure config.contextLines]
  | .ok tree =>
    let subject : Subject := ⟨source, tree, config⟩
    checks.syntaxFindings subject ++ Check.runAll checks.logicChecks subject

end Checks

end Scrutiny
