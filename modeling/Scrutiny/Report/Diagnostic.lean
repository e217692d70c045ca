/-
Diagnostics: a message, maybe a place, and suggestions how to mend it.

A diagnostic can be flattened into text, with or without the lines around its
place.  How it is drawn beneath the line it points at is in `Report/Drawing.lean`.
-/
import Scrutiny.Report.Context

namespace Scrutiny

/-- One thing to tell. -/
structure Diagnostic where
  message : String
  context : Option Context
  /-- Each suggestion once, in the order given. -/
  suggestions : List String
deriving DecidableEq, Repr

namespace Diagnostic

/-- A message alone. -/
def ofMessage (message : String) : Diagnostic := ⟨message, none, []⟩

/-- Point at a place. -/
def pointingAt (context : Context) (d : Diagnostic) : Diagnostic :=
  { d with context := some context }

/-- Add a suggestion unless it is there already. -/
def suggest (suggestion : String) (d : Diagnostic) : Diagnostic :=
  if d.suggestions.contains suggestion then d
  else { d with suggestions := d.suggestions ++ [suggestion] }

/-- Add suggestions one by one. -/
def suggestAll (suggestions : List String) (d : Diagnostic) : Diagnostic :=
  suggestions.foldl (fun d s => d.suggest s) d

/-- The line a diagnostic points at. -/
def line? (d : Diagnostic) : Option Nat :=
  d.context.map (·.line)

/-- A number set to the right of four columns. -/
def padNumber (n : Nat) : String :=
  let digits := toString n
  String.ofList (List.replicate (4 - digits.length) ' ') ++ digits

/-- Where a context points, and its lines, the one meant marked with `>`. -/
def contextText (context : Context) : String :=
  let place := match context.column with
    | some column => s!"\n  at line {context.line}, column {column}"
    | none => s!"\n  at line {context.line}"
  let lines := context.numbered.map fun (number, text) =>
    let mark := if number = context.line then ">" else " "
    s!"\n  {mark} {padNumber number} | {text}"
  place ++ String.join lines

/-- The suggestions, if there are any. -/
def suggestionText (suggestions : List String) : String :=
  if suggestions.isEmpty then ""
  else "\n  Suggestions:" ++ String.join (suggestions.map fun s => s!"\n    - {s}")

/-- A diagnostic as text. -/
def format (d : Diagnostic) (withContext : Bool) : String :=
  let context := if withContext then (d.context.map contextText).getD "" else ""
  d.message ++ context ++ suggestionText d.suggestions

end Diagnostic

end Scrutiny
