/-
Numbers in JSON.

An integer of at most 64 bits is kept as it is.  Any other number is a double: its
first digits, as many as 64 bits hold, times a power of ten.
-/
import Scrutiny.Json.Basic

namespace Scrutiny.Json.Reader

/-- The largest number of 64 bits. -/
def maxWord : Nat := Nat.pow 2 64 - 1

/-- Append digits to a number as long as 64 bits hold it: the number, and how many
digits were taken and how many left. -/
def appendDigits (n : Nat) : List Char → Nat × Nat × Nat
  | [] => (n, 0, 0)
  | c :: cs =>
    let next := 10 * n + (c.toNat - '0'.toNat)
    if maxWord < next then (n, 0, cs.length + 1)
    else
      let (m, taken, left) := appendDigits next cs
      (m, taken + 1, left)

/-- The number of digits after which an exponent is larger than 31 bits hold. -/
def overlong? (n count : Nat) : List Char → Option Nat
  | [] => none
  | c :: cs =>
    let next := 10 * n + (c.toNat - '0'.toNat)
    if Nat.pow 2 31 - 1 < next then some (count + 1) else overlong? next (count + 1) cs

/-- A double from its significand and exponent. -/
def double (isNegative : Bool) (significand : Nat) (exponent : Int) : Reader Number := do
  match Double.ofDecimal? (.ofNat significand) exponent with
  | some d => pure (.float isNegative d)
  | none => failHere .outOfRange

/-- Read an exponent: its letter comes next. -/
def exponentPart (isNegative : Bool) (significand : Nat) (exponent : Int) : Reader Number := do
  advance
  let sign ← peek
  let isDown := sign == some '-'
  if isDown || sign == some '+' then advance
  match ← peek with
  | none => failNext .endInValue
  | some c => if !c.isDigit then failNext .badNumber
  let cursor ← get
  let digits ← takeWhile Char.isDigit
  match overlong? 0 0 digits with
  | some count =>
    if significand ≠ 0 ∧ ¬isDown then
      throw ⟨.outOfRange, cursor.offset + count⟩
    else pure (.float isNegative (.ofNat 0))
  | none =>
    let size : Int := (appendDigits 0 digits).1
    double isNegative significand (if isDown then exponent - size else exponent + size)

/-- Read a fraction: its point comes next. -/
def fractionPart (isNegative : Bool) (significand : Nat) (exponent : Int) : Reader Number := do
  advance
  let digits ← takeWhile Char.isDigit
  if digits.isEmpty then
    match ← peek with
    | some _ => failNext .badNumber
    | none => failNext .endInValue
  let (significand, taken, _) := appendDigits significand digits
  let exponent := exponent - taken
  match ← peek with
  | some 'e' | some 'E' => exponentPart isNegative significand exponent
  | _ => double isNegative significand exponent

/-- A whole number of at most 64 bits.  Negative zero, and what is too small for a
signed word, are doubles. -/
def wholeNumber (isNegative : Bool) (n : Nat) : Number :=
  if !isNegative then .natural n
  else if n = 0 ∨ Nat.pow 2 63 < n then .float true (.ofNat n)
  else .negative n

/-- Read the digits of a number, its sign behind. -/
def unsignedNumber (isNegative : Bool) : Reader Number := do
  match ← peek with
  | none => failNext .endInValue
  | some c => if !c.isDigit then failNext .badNumber
  let digits ← do
    if (← peek) == some '0' then
      advance
      if (← peek).any Char.isDigit then failNext .badNumber
      pure ['0']
    else takeWhile Char.isDigit
  let (n, _, left) := appendDigits 0 digits
  match ← peek with
  | some '.' => fractionPart isNegative n left
  | some 'e' | some 'E' => exponentPart isNegative n left
  | _ => if left = 0 then pure (wholeNumber isNegative n) else double isNegative n left

/-- Read a number: its sign or first digit comes next. -/
def number : Reader Number := do
  let isNegative := (← peek) == some '-'
  if isNegative then advance
  unsignedNumber isNegative

/-! ### Skipping -/

/-- Skip digits; at least one has to come next. -/
def skipDigits : Reader Unit := do
  if (← takeWhile Char.isDigit).isEmpty then failNext .badNumber

/-- Skip an exponent: its letter comes next. -/
def skipExponent : Reader Unit := do
  advance
  if (← peek).any fun c => c == '+' || c == '-' then advance
  skipDigits

/-- Skip a number: its sign or first digit comes next. -/
def skipNumber : Reader Unit := do
  if (← peek) == some '-' then advance
  if (← peek) == some '0' then
    advance
    if (← peek).any Char.isDigit then failNext .badNumber
  else skipDigits
  if (← peek) == some '.' then
    advance
    skipDigits
  if (← peek).any fun c => c == 'e' || c == 'E' then skipExponent

end Scrutiny.Json.Reader
