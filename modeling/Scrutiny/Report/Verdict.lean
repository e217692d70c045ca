/-
Findings of the checks, and the verdict they add up to.

A verdict only grows.  It is valid as long as no error has been recorded; warnings
and suggestions never change that.
-/
import Scrutiny.Report.Diagnostic

namespace Scrutiny

/-- The verdict of a pass over a text. -/
structure Verdict where
  /-- Whether no error has been recorded. -/
  isValid : Bool
  errors : List String
  warnings : List String
  /-- The lines of the errors that have one, in the order of the errors. -/
  lineNumbers : List Nat
  suggestions : List String
  /-- The contexts of the errors that have one. -/
  contexts : List Context
deriving DecidableEq, Repr

namespace Verdict

/-- Nothing recorded yet. -/
def empty : Verdict := ⟨true, [], [], [], [], []⟩

/-- Record an error, with its line if it is known. -/
def addError (v : Verdict) (text : String) (line : Option Nat) : Verdict :=
  { v with
    isValid := false
    errors := v.errors ++ [text]
    lineNumbers := v.lineNumbers ++ line.toList }

/-- Record an error with its context. -/
def addErrorAt (v : Verdict) (text : String) (context : Context) : Verdict :=
  let v := v.addError text (some context.line)
  { v with contexts := v.contexts ++ [context] }

/-- Record a warning. -/
def addWarning (v : Verdict) (text : String) : Verdict :=
  { v with warnings := v.warnings ++ [text] }

/-- Record a suggestion. -/
def addSuggestion (v : Verdict) (text : String) : Verdict :=
  { v with suggestions := v.suggestions ++ [text] }

end Verdict

/-- How much a finding matters. -/
inductive Severity where
  /-- Makes the verdict invalid. -/
  | error
  | warning
  | suggestion
deriving DecidableEq, Repr

/-- What a check found. -/
structure Finding where
  severity : Severity
  diagnostic : Diagnostic
  /-- Whether the lines around its place belong to its text. -/
  showContext : Bool
deriving DecidableEq, Repr

namespace Finding

def error (d : Diagnostic) : Finding := ⟨.error, d, false⟩

def warning (d : Diagnostic) : Finding := ⟨.warning, d, false⟩

def suggestion (text : String) : Finding := ⟨.suggestion, .ofMessage text, false⟩

/-- Make the lines around its place part of a finding's text. -/
def withContext (f : Finding) : Finding := { f with showContext := true }

/-- A finding as text. -/
def text (f : Finding) : String := f.diagnostic.format f.showContext

/-- Record a finding by its severity. -/
def record (f : Finding) (v : Verdict) : Verdict :=
  match f.severity with
  | .error =>
    match f.diagnostic.context with
    | some context => v.addErrorAt f.text context
    | none => v.addError f.text none
  | .warning => v.addWarning f.text
  | .suggestion => v.addSuggestion f.text

end Finding

/-- The verdict that some findings add up to. -/
def Verdict.ofFindings (findings : List Finding) : Verdict :=
  findings.foldl (fun v finding => finding.record v) empty

end Scrutiny
