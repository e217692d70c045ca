/-
Configurations changed by the environment.

A variable that is not set, or whose value makes no sense, changes nothing.  White
space around a value does not matter.
-/
import Scrutiny.Config.Basic

namespace Scrutiny.Config

/-- The truth value that a text writes. -/
def flag? (text : String) : Option Bool :=
  let word := String.ofList ((trim text.toList).map Char.toLower)
  if ["1", "true", "yes", "on"].contains word then some true
  else if ["0", "false", "no", "off"].contains word then some false
  else none

/-- The natural number that digits write, if 64 bits hold it. -/
def digits? (cs : List Char) : Option Nat :=
  if cs.isEmpty || !cs.all Char.isDigit then none
  else
    let n := cs.foldl (fun n c => 10 * n + (c.toNat - '0'.toNat)) 0
    if n < Nat.pow 2 64 then some n else none

/-- The natural number that a text writes; a plus may come before it. -/
def natural? (text : String) : Option Nat :=
  match trim text.toList with
  | '+' :: cs => digits? cs
  | cs => digits? cs

/-- Change a configuration by the variables of an environment, each looked up by
what it is called. -/
def override (config : Config) (lookup : String → Option String) : Config :=
  { config with
    level := ((lookup "VALIDATION_LEVEL").bind Level.ofText?).getD config.level
    checkImports := ((lookup "VALIDATE_IMPORTS").bind flag?).getD config.checkImports
    checkUndefined := ((lookup "CHECK_UNDEFINED_VARS").bind flag?).getD config.checkUndefined
    allowUnsafe := ((lookup "ALLOW_UNSAFE_OPERATIONS").bind flag?).getD config.allowUnsafe
    indentSize := ((lookup "INDENT_SIZE").bind natural?).getD config.indentSize
    maxLineLength := ((lookup "MAX_LINE_LENGTH").bind natural?).getD config.maxLineLength }

end Scrutiny.Config
