/-
Configurations written in JSON.

A configuration is an object with any of its fields, or a list of their values in
order; fields that are missing take their default, and unknown ones are skipped.
What has been read must have its limits in range.
-/
import Scrutiny.Config.Basic
import Scrutiny.Json.Value
import Scrutiny.Text.Lines

namespace Scrutiny.Config

/-- The fields of a configuration. -/
inductive Field where
  | level | checkImports | checkUndefined | allowUnsafe
  | indentSize | maxLineLength | cacheCapacity | contextLines
deriving DecidableEq, Repr

namespace Field

/-- The fields in order. -/
def all : List Field :=
  [level, checkImports, checkUndefined, allowUnsafe, indentSize, maxLineLength, cacheCapacity,
    contextLines]

/-- How a field is written. -/
def name : Field → String
  | level => "validation_level"
  | checkImports => "check_imports"
  | checkUndefined => "check_undefined_vars"
  | allowUnsafe => "allow_unsafe_operations"
  | indentSize => "indent_size"
  | maxLineLength => "max_line_length"
  | cacheCapacity => "cache_capacity"
  | contextLines => "context_lines"

/-- The field with a name. -/
def ofName? (text : String) : Option Field := all.find? (·.name == text)

end Field

/-! ### Reading -/

open Json (Reader)
open Json.Reader

/-- Read the word for a level. -/
def levelWord : Reader Level := do
  let word ← text "variant identifier"
  match [Level.strict, .normal, .lenient].find? (·.text == word) with
  | some level => pure level
  | none => failHere (.unknownWord word ["strict", "normal", "lenient"])

/-- Read a level: its word, or an object with that word for its one key and nothing
for its value. -/
def readLevel : Reader Level := do
  match ← peekValue with
  | '"' => levelWord
  | '\x7b' => do
    advance
    let level ← levelWord
    colon
    unit
    match ← peekPastBlanks with
    | some '\x7d' => do
      advance
      pure level
    | some _ => failHere .wantsValue
    | none => failHere .endInObject
  | _ => failNext .wantsValue

/-- Read the value of a field into a configuration. -/
def readField (config : Config) : Field → Reader Config
  | .level => do
    let level ← readLevel
    pure { config with level }
  | .checkImports => do
    let checkImports ← boolean
    pure { config with checkImports }
  | .checkUndefined => do
    let checkUndefined ← boolean
    pure { config with checkUndefined }
  | .allowUnsafe => do
    let allowUnsafe ← boolean
    pure { config with allowUnsafe }
  | .indentSize => do
    let indentSize ← natural
    pure { config with indentSize }
  | .maxLineLength => do
    let maxLineLength ← natural
    pure { config with maxLineLength }
  | .cacheCapacity => do
    let cacheCapacity ← natural
    pure { config with cacheCapacity }
  | .contextLines => do
    let contextLines ← natural
    pure { config with contextLines }

/-- Whether another field follows in an object.  `first` says that none has come
before; otherwise a comma has to. -/
def hasKey (first : Bool) : Reader Bool := do
  let key ←
    match ← peekPastBlanks with
    | none => failNext .endInObject
    | some '\x7d' => return false
    | some c =>
      if first then pure (some c)
      else if c == ',' then
        advance
        peekPastBlanks
      else failNext .wantsObjectEnd
  match key with
  | some '"' => pure true
  | some '\x7d' => failNext .trailingComma
  | some _ => failNext .keyNotString
  | none => failNext .endInValue

/-- Fail because a field comes a second time: after the blanks that follow it, and
the end of the object if it is there. -/
def failDuplicate (field : Field) : Reader Config := do
  if (← peekPastBlanks) == some '\x7d' then advance
  failHere (.duplicate field.name)

/-- Read at most `n` fields of an object; `first` says that none has been read, and
those in `seen` are known ones that have. -/
def readFields : Nat → Bool → List Field → Config → Reader Config
  | 0, _, _, config => pure config
  | n + 1, first, seen, config => do
    if ← hasKey first then
      let key ← string
      match Field.ofName? key with
      | some field =>
        if seen.contains field then failDuplicate field
        else
          colon
          let config ← readField config field
          readFields n false (field :: seen) config
      | none => do
        colon
        skip
        readFields n false seen config
    else pure config

/-- Whether another item follows in a list.  `first` says that none has come before;
otherwise a comma has to. -/
def hasItem (first : Bool) : Reader Bool := do
  match ← peekPastBlanks with
  | none => failNext .endInList
  | some ']' => pure false
  | some c =>
    if first then pure true
    else if c == ',' then
      advance
      match ← peekPastBlanks with
      | some ']' => failNext .trailingComma
      | some _ => pure true
      | none => failNext .endInValue
    else failNext .wantsListEnd

/-- Read the values of fields from a list. -/
def readItems : List Field → Bool → Config → Reader Config
  | [], _, config => pure config
  | field :: fields, first, config => do
    if ← hasItem first then
      let config ← readField config field
      readItems fields false config
    else pure config

/-- Read the end of a list in which nothing more is wanted. -/
def endList : Reader Unit := do
  match ← peekPastBlanks with
  | some ']' => advance
  | some ',' => do
    advance
    if (← peekPastBlanks) == some ']' then failNext .trailingComma else failNext .trailing
  | some _ => failNext .trailing
  | none => failNext .endInList

/-- Read a configuration. -/
def read : Reader Config := do
  match ← peekValue with
  | '\x7b' => do
    advance
    let cursor ← get
    let config ← readFields (cursor.rest.length + 1) true [] .default
    advance
    pure config
  | '[' => do
    advance
    let config ← readItems Field.all true .default
    endList
    pure config
  | _ => mismatch "struct ValidatorConfig"

/-- Read a configuration that nothing follows. -/
def readWhole : Reader Config := do
  let config ← read
  match ← peekPastBlanks with
  | some _ => failNext .trailing
  | none => pure config

/-! ### The result -/

/-- Why a text gives no configuration. -/
inductive LoadError where
  | limit (fault : Fault)
  /-- The text is not JSON, or not of a configuration. -/
  | json (fault : Json.Fault) (position : Position)
deriving DecidableEq, Repr

/-- The wording of an error. -/
def LoadError.message : LoadError → String
  | limit fault => fault.message
  | json fault ⟨line, column⟩ =>
    s!"invalid configuration JSON: {fault.message} at line {line} column {column}"

/-- The line of a byte offset, and how many bytes of it come before. -/
def bytePosition (cs : List Char) (offset : Nat) : Position :=
  let table := LineTable.ofText cs
  let line := table.line offset
  ⟨line, offset - table.starts.getD (line - 1) 0⟩

/-- The configuration that a text writes. -/
def ofJson (text : String) : Except LoadError Config :=
  let cs := text.toList
  match readWhole ⟨0, cs⟩ with
  | .error error => .error (.json error.fault (bytePosition cs error.offset))
  | .ok (config, _) =>
    match config.fault? with
    | some fault => .error (.limit fault)
    | none => .ok config

end Scrutiny.Config
