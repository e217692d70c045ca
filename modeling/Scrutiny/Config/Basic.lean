/-
Configuration: which checks run, and their limits.
-/
import Scrutiny.Report.Context
import Scrutiny.Text.Blank

namespace Scrutiny

/-- How much there is to complain about.  `strict` runs every optional check,
`normal` leaves out unused bindings, `lenient` common issues too. -/
inductive Level where
  | strict | normal | lenient
deriving DecidableEq, Repr

namespace Level

/-- How a level is written. -/
def text : Level → String
  | strict => "strict"
  | normal => "normal"
  | lenient => "lenient"

/-- Whether common issues are looked for. -/
def scansCommonIssues : Level → Bool
  | strict | normal => true
  | lenient => false

def isStrict (level : Level) : Bool := level == strict

/-- The level a text names, whatever its case and the white space around it. -/
def ofText? (text : String) : Option Level :=
  let word := String.ofList ((trim text.toList).map Char.toLower)
  [strict, normal, lenient].find? (·.text == word)

/-- What to say of a text that names no level. -/
def unknownMessage (text : String) : String :=
  s!"unknown validation level '{text}' (expected strict, normal or lenient)"

end Level

/-- Everything the checks can be told. -/
structure Config where
  level : Level
  /-- Report duplicate and wildcard imports. -/
  checkImports : Bool
  /-- Report names that are read before anything binds them. -/
  checkUndefined : Bool
  /-- Do not look for unsafe operations. -/
  allowUnsafe : Bool
  /-- The width of one level of indentation. -/
  indentSize : Nat
  /-- Longer lines are warned about. -/
  maxLineLength : Nat
  /-- How many entries each cache keeps. -/
  cacheCapacity : Nat
  /-- How many lines to show on either side of an error. -/
  contextLines : Nat
deriving DecidableEq, Repr

namespace Config

def defaultCapacity : Nat := 100

/-- The configuration when nothing is said. -/
def default : Config where
  level := .strict
  checkImports := true
  checkUndefined := true
  allowUnsafe := false
  indentSize := 4
  maxLineLength := 88
  cacheCapacity := defaultCapacity
  contextLines := Context.defaultWindow

/-- What can be wrong with the limits of a configuration. -/
inductive Fault where
  | indentSize (got : Nat)
  | maxLineLength (got : Nat)
  | cacheCapacity
deriving DecidableEq, Repr

/-- The wording of a fault. -/
def Fault.message : Fault → String
  | indentSize got => s!"indent_size must be one of 2, 4 or 8 (got {got})"
  | maxLineLength got => s!"max_line_length must be between 50 and 120 (got {got})"
  | cacheCapacity => "cache_capacity must be at least 1"

/-- The first limit that is out of range. -/
def fault? (config : Config) : Option Fault :=
  if config.indentSize ∉ [2, 4, 8] then some (.indentSize config.indentSize)
  else if config.maxLineLength < 50 ∨ 120 < config.maxLineLength then
    some (.maxLineLength config.maxLineLength)
  else if config.cacheCapacity = 0 then some .cacheCapacity
  else none

end Config

end Scrutiny
