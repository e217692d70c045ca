/-
Numerals: how far one reaches.

A numeral is in base 16, 8 or 2 behind its mark, or decimal with an optional
fraction, exponent and imaginary suffix.  Underscores count as digits everywhere.
Every function here answers with a number of characters counted from the front of
the text it is given.
-/

namespace Scrutiny

/-- How many characters at the front satisfy `p`. -/
def runLength (p : Char → Bool) (cs : List Char) : Nat :=
  (cs.takeWhile p).length

namespace Numeral

/-- A decimal digit or an underscore. -/
def isDigitLike (c : Char) : Bool :=
  c.isDigit || c == '_'

/-- The digits that may follow a base mark; nothing if `mark` marks no base. -/
def digitsAfterMark? (mark : Char) : Option (Char → Bool) :=
  if mark == 'x' || mark == 'X' then
    some fun c => c.isDigit || ('a' ≤ c && c ≤ 'f') || ('A' ≤ c && c ≤ 'F') || c == '_'
  else if mark == 'o' || mark == 'O' then
    some fun c => ('0' ≤ c && c ≤ '7') || c == '_'
  else if mark == 'b' || mark == 'B' then
    some fun c => c == '0' || c == '1' || c == '_'
  else
    none

/-- A numeral with a base mark: `0x1F`, `0o17`, `0b11`. -/
def markedLength? : List Char → Option Nat
  | '0' :: mark :: cs =>
    match digitsAfterMark? mark with
    | some isDigit =>
      let digits := runLength isDigit cs
      if digits = 0 then none else some (2 + digits)
    | none => none
  | _ => none

/-- A point and the digits after it, of which there may be none. -/
def fractionLength : List Char → Nat
  | '.' :: cs => 1 + runLength isDigitLike cs
  | _ => 0

/-- The sign of an exponent. -/
def signLength : List Char → Nat
  | c :: _ => if c == '+' || c == '-' then 1 else 0
  | [] => 0

/-- An exponent; without digits it is none. -/
def exponentLength : List Char → Nat
  | c :: cs =>
    if c == 'e' || c == 'E' then
      let sign := signLength cs
      let digits := runLength isDigitLike (cs.drop sign)
      if digits = 0 then 0 else 1 + sign + digits
    else
      0
  | [] => 0

/-- The mark of an imaginary number. -/
def imaginaryLength : List Char → Nat
  | c :: _ => if c == 'j' || c == 'J' then 1 else 0
  | [] => 0

/-- What may follow the first `read` characters of a decimal: exponent, then suffix. -/
def withTail (cs : List Char) (read : Nat) : Nat :=
  let scaled := read + exponentLength (cs.drop read)
  scaled + imaginaryLength (cs.drop scaled)

/-- A decimal: a digit first, or a point and a digit. -/
def decimalLength? (cs : List Char) : Option Nat :=
  match cs with
  | c :: rest =>
    if c.isDigit then
      let whole := runLength isDigitLike cs
      some (withTail cs (whole + fractionLength (cs.drop whole)))
    else if c == '.' && (rest.head?.any Char.isDigit) then
      some (withTail cs (fractionLength cs))
    else
      none
  | [] => none

/-- The numeral at the front, if there is one.  Behind a base mark the decimal
reading would stop at the zero, so the marked reading is the longer one. -/
def length? (cs : List Char) : Option Nat :=
  (markedLength? cs).orElse fun _ => decimalLength? cs

end Numeral

end Scrutiny
