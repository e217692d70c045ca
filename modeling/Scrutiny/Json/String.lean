/-
Strings in JSON.

A string is read to its closing quote, its escapes replaced by what they stand for.
A string that nobody wants is only skipped: its escapes have to be well formed, but
surrogates need no partner.
-/
import Scrutiny.Json.Basic

namespace Scrutiny.Json.Reader

/-- The value of a hexadecimal digit. -/
def hexValue? (c : Char) : Option Nat :=
  if c.isDigit then some (c.toNat - '0'.toNat)
  else if 'a' ≤ c ∧ c ≤ 'f' then some (c.toNat - 'a'.toNat + 10)
  else if 'A' ≤ c ∧ c ≤ 'F' then some (c.toNat - 'A'.toNat + 10)
  else none

/-- The number that four hexadecimal digits write. -/
def hexNumber? (cs : List Char) : Option Nat :=
  cs.foldlM (fun n c => (hexValue? c).map (16 * n + ·)) 0

/-- Read the four digits of an escape.  Four bytes are taken, whatever they are. -/
def hexEscape : Reader Nat :=
  fun cursor =>
    let size := byteLength cursor.rest
    if size < 4 then .error ⟨.endInString, cursor.offset + size⟩
    else
      match hexNumber? (cursor.rest.take 4) with
      | some n => .ok (n, ⟨cursor.offset + 4, cursor.rest.drop 4⟩)
      | none => .error ⟨.badEscape, cursor.offset + 4⟩

/-- Read a character that has to follow the first half of a surrogate pair. -/
def betweenSurrogates (wanted : Char) : Reader Unit := do
  match ← peek with
  | none => failHere .endInString
  | some c => if c = wanted then advance else failNext .cutSurrogate

/-- Read the character of a numeric escape; two escapes may stand for one. -/
def numericEscape : Reader Char := do
  let high ← hexEscape
  if 0xDC00 ≤ high ∧ high ≤ 0xDFFF then failHere .loneSurrogate
  else if high < 0xD800 ∨ 0xDBFF < high then pure (Char.ofNat high)
  else
    betweenSurrogates '\\'
    betweenSurrogates 'u'
    let low ← hexEscape
    if low < 0xDC00 ∨ 0xDFFF < low then failHere .loneSurrogate
    else pure (Char.ofNat ((high - 0xD800) * 0x400 + (low - 0xDC00) + 0x10000))

/-- The character that a one-letter escape stands for. -/
def shortEscape? (c : Char) : Option Char :=
  [('"', '"'), ('\\', '\\'), ('/', '/'), ('b', '\x08'), ('f', '\x0c'), ('n', '\n'),
    ('r', '\r'), ('t', '\t')].lookup c

/-- Read what follows a backslash, numeric escapes as `numeric` does. -/
def escape (numeric : Reader Char) : Reader Char := do
  match ← peek with
  | none => failHere .endInString
  | some 'u' => do
    advance
    numeric
  | some c =>
    match shortEscape? c with
    | some d => do
      advance
      pure d
    | none => failNext .badEscape

/-- Whether a character can stand in a string as it is. -/
def isPlain (c : Char) : Bool := c != '"' && c != '\\' && 0x20 ≤ c.toNat

/-- Read to the closing quote, in at most `n` pieces. -/
def stringFrom (numeric : Reader Char) (control : Reader (List Char)) :
    Nat → Reader (List Char)
  | 0 => failHere .endInString
  | n + 1 => do
    let plain ← takeWhile isPlain
    match ← peek with
    | none => failHere .endInString
    | some '"' => do
      advance
      pure plain
    | some '\\' => do
      advance
      let c ← escape numeric
      let more ← stringFrom numeric control n
      pure (plain ++ c :: more)
    | some _ => control

/-- Read a string whose opening quote comes next. -/
def string : Reader String := do
  advance
  let cursor ← get
  let cs ← stringFrom numericEscape (failNext .controlInString) (cursor.rest.length + 1)
  pure (String.ofList cs)

/-- Skip a string whose opening quote has been read. -/
def skipString : Reader Unit := do
  let cursor ← get
  let numeric := do
    let _ ← hexEscape
    pure ' '
  let _ ← stringFrom numeric (failHere .controlInString) (cursor.rest.length + 1)

end Scrutiny.Json.Reader
