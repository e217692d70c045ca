/-
Values in JSON: those of a wanted type, and those that are skipped.
-/
import Scrutiny.Json.Number
import Scrutiny.Json.String

namespace Scrutiny.Json.Reader

/-- Look at the first character of a value. -/
def peekValue : Reader Char := do
  match ← peekPastBlanks with
  | some c => pure c
  | none => failNext .endInValue

/-- Read what comes next, and fail because something else is expected.  Lists and
objects are not read. -/
def mismatch {α : Type} (expected : String) : Reader α := do
  let found : Found ←
    match ← peek with
    | some 'n' => do
      word "null"
      pure .null
    | some 't' => do
      word "true"
      pure (.boolean true)
    | some 'f' => do
      word "false"
      pure (.boolean false)
    | some '"' => do
      let text ← string
      pure (.string text)
    | some '[' => pure .list
    | some '\x7b' => pure .object
    | some c =>
      if c == '-' || c.isDigit then
        let n ← number
        pure (.number n)
      else failNext .wantsValue
    | none => failNext .wantsValue
  failHere (.wrongType found expected)

/-- Read a truth value. -/
def boolean : Reader Bool := do
  match ← peekValue with
  | 't' => do
    word "true"
    pure true
  | 'f' => do
    word "false"
    pure false
  | _ => mismatch "a boolean"

/-- Read a natural number of at most 64 bits. -/
def natural : Reader Nat := do
  let c ← peekValue
  if c == '-' || c.isDigit then
    match ← number with
    | .natural n => pure n
    | .negative n => failHere (.wrongValue (.number (.negative n)) "usize")
    | n => failHere (.wrongType (.number n) "usize")
  else mismatch "usize"

/-- Read a string. -/
def text (expected : String) : Reader String := do
  if (← peekValue) == '"' then string else mismatch expected

/-- Read nothing, which is written `null`. -/
def unit : Reader Unit := do
  if (← peekValue) == 'n' then word "null" else mismatch "unit"

/-- Read the colon after a key. -/
def colon : Reader Unit := do
  match ← peekPastBlanks with
  | some ':' => advance
  | some _ => failNext .wantsColon
  | none => failNext .endInObject

/-! ### Skipping -/

/-- Skip a key and its colon. -/
def skipKey : Reader Unit := do
  match ← peekPastBlanks with
  | some '"' => do
    advance
    skipString
    colon
  | some _ => failNext .keyNotString
  | none => failNext .endInObject

mutual

/-- Skip a value of whatever type, in at most `n` steps. -/
def skipIn : Nat → Reader Unit
  | 0 => failNext .wantsValue
  | n + 1 => do
    match ← peekValue with
    | 'n' => word "null"
    | 't' => word "true"
    | 'f' => word "false"
    | '"' => do
      advance
      skipString
    | '[' => do
      advance
      match ← peekPastBlanks with
      | some ']' => advance
      | some _ => skipItems n
      | none => failNext .endInList
    | '\x7b' => do
      advance
      match ← peekPastBlanks with
      | some '\x7d' => advance
      | some _ => skipFields n
      | none => failNext .endInObject
    | c => if c == '-' || c.isDigit then skipNumber else failNext .wantsValue

/-- Skip the items of a list to its end. -/
def skipItems : Nat → Reader Unit
  | 0 => failNext .wantsValue
  | n + 1 => do
    skipIn n
    match ← peekPastBlanks with
    | some ',' => do
      advance
      skipItems n
    | some ']' => advance
    | some _ => failNext .wantsListEnd
    | none => failNext .endInList

/-- Skip the fields of an object to its end. -/
def skipFields : Nat → Reader Unit
  | 0 => failNext .wantsValue
  | n + 1 => do
    skipKey
    skipIn n
    match ← peekPastBlanks with
    | some ',' => do
      advance
      skipFields n
    | some '\x7d' => advance
    | some _ => failNext .wantsObjectEnd
    | none => failNext .endInObject

end

/-- Skip a value of whatever type.  Of two steps in a row at least one reads a
character. -/
def skip : Reader Unit := do
  let cursor ← get
  skipIn (2 * cursor.rest.length + 2)

end Scrutiny.Json.Reader
