/-
Reading JSON: places in a text, faults, and the steps that every reader is made of.

A reader goes over a text from left to right and fails at a byte offset.  Some faults
show after what has been read, others after the first byte of what comes next; at
the end of the text both are the end.
-/
import Scrutiny.Decimal.Shortest
import Scrutiny.Text.Bytes
import Scrutiny.Text.Escape

namespace Scrutiny.Json

/-- A number as it was written: a natural number, a negative integer by its absolute
value, or a double. -/
inductive Number where
  | natural (n : Nat)
  | negative (n : Nat)
  | float (isNegative : Bool) (d : Double)
deriving DecidableEq, Repr

/-- What stands where something else is wanted. -/
inductive Found where
  | null
  | boolean (b : Bool)
  | number (n : Number)
  | string (s : String)
  | list
  | object
deriving DecidableEq, Repr

/-- How to name what was found. -/
def Found.text : Found → String
  | null => "null"
  | boolean b => s!"boolean `{b}`"
  | number (.natural n) => s!"integer `{n}`"
  | number (.negative n) => s!"integer `-{n}`"
  | number (.float isNegative d) =>
    "floating point `" ++ (if isNegative then "-" else "") ++ d.text ++ "`"
  | string s => "string " ++ quoteText s
  | list => "sequence"
  | object => "map"

/-- Why a text cannot be read. -/
inductive Fault where
  | endInList
  | endInObject
  | endInString
  | endInValue
  | wantsColon
  | wantsListEnd
  | wantsObjectEnd
  | wantsWord
  | wantsValue
  | badEscape
  | badNumber
  | outOfRange
  | controlInString
  | keyNotString
  | loneSurrogate
  | cutSurrogate
  | trailingComma
  | trailing
  /-- Something of another type than expected. -/
  | wrongType (found : Found) (expected : String)
  /-- Something of the right type that cannot be used. -/
  | wrongValue (found : Found) (expected : String)
  /-- A word that is none of those expected. -/
  | unknownWord (word : String) (expected : List String)
  /-- A field that comes a second time. -/
  | duplicate (field : String)
deriving DecidableEq, Repr

/-- The wording of a fault. -/
def Fault.message : Fault → String
  | endInList => "EOF while parsing a list"
  | endInObject => "EOF while parsing an object"
  | endInString => "EOF while parsing a string"
  | endInValue => "EOF while parsing a value"
  | wantsColon => "expected `:`"
  | wantsListEnd => "expected `,` or `]`"
  | wantsObjectEnd => "expected `,` or `\x7d`"
  | wantsWord => "expected ident"
  | wantsValue => "expected value"
  | badEscape => "invalid escape"
  | badNumber => "invalid number"
  | outOfRange => "number out of range"
  | controlInString => "control character (\\u0000-\\u001F) found while parsing a string"
  | keyNotString => "key must be a string"
  | loneSurrogate => "lone leading surrogate in hex escape"
  | cutSurrogate => "unexpected end of hex escape"
  | trailingComma => "trailing comma"
  | trailing => "trailing characters"
  | wrongType found expected => s!"invalid type: {found.text}, expected {expected}"
  | wrongValue found expected => s!"invalid value: {found.text}, expected {expected}"
  | unknownWord word expected =>
    s!"unknown variant `{word}`, expected one of " ++
      ", ".intercalate (expected.map fun w => s!"`{w}`")
  | duplicate field => s!"duplicate field `{field}`"

/-- A fault and the byte offset it shows at. -/
structure Error where
  fault : Fault
  offset : Nat
deriving DecidableEq, Repr

/-- A place in a text: its byte offset and what follows. -/
structure Cursor where
  offset : Nat
  rest : List Char
deriving DecidableEq, Repr

/-- Reads from a place on. -/
abbrev Reader := StateT Cursor (Except Error)

namespace Reader

/-- Fail at the end of what has been read. -/
def failHere {α : Type} (fault : Fault) : Reader α :=
  fun cursor => .error ⟨fault, cursor.offset⟩

/-- Fail after the first byte of what comes next. -/
def failNext {α : Type} (fault : Fault) : Reader α :=
  fun cursor => .error ⟨fault, cursor.offset + if cursor.rest.isEmpty then 0 else 1⟩

/-- The next character. -/
def peek : Reader (Option Char) :=
  fun cursor => .ok (cursor.rest.head?, cursor)

/-- Go past the next character. -/
def advance : Reader Unit :=
  fun cursor =>
    match cursor.rest with
    | [] => .ok ((), cursor)
    | c :: cs => .ok ((), ⟨cursor.offset + c.utf8Size, cs⟩)

/-- Read the characters of a class that come next. -/
def takeWhile (is : Char → Bool) : Reader (List Char) :=
  fun cursor =>
    let (taken, rest) := cursor.rest.span is
    .ok (taken, ⟨cursor.offset + byteLength taken, rest⟩)

/-- Go past blanks, and look at the next character. -/
def peekPastBlanks : Reader (Option Char) := do
  let _ ← takeWhile fun c => c == ' ' || c == '\n' || c == '\t' || c == '\r'
  peek

/-- Read the rest of a word whose beginning has been read. -/
def restOfWord : List Char → Reader Unit
  | [] => pure ()
  | wanted :: more => do
    match ← peek with
    | none => failNext .endInValue
    | some c => if c = wanted then advance; restOfWord more else failNext .wantsWord

/-- Read a word: its first character is known to come next. -/
def word (text : String) : Reader Unit := do
  advance
  restOfWord (text.toList.drop 1)

end Reader

end Scrutiny.Json
