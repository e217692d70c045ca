/-
Literals: the value of an integer numeral, and what a string literal reads.

A numeral is kept as written; `intValue?` gives its value if it is an integer that
fits in 128 bits.  A string literal keeps its parts as written too, and lists the
names its replacement fields read.
-/
import Scrutiny.Text.Alphabet
import Scrutiny.Text.Blank

namespace Scrutiny

/-! ### Integers -/

/-- The value of a digit in `base`, letters of either case counting on from ten. -/
def digitValue? (base : Nat) (c : Char) : Option Nat :=
  let value? :=
    if c.isDigit then some (c.toNat - '0'.toNat)
    else if c.isLower then some (c.toNat - 'a'.toNat + 10)
    else if c.isUpper then some (c.toNat - 'A'.toNat + 10)
    else none
  value?.filter (· < base)

/-- The number that a row of digits writes in `base`, continuing from `value`. -/
def digitsValue? (base : Nat) : Nat → List Char → Option Nat
  | value, [] => some value
  | value, c :: cs =>
    match digitValue? base c with
    | some d => digitsValue? base (value * base + d) cs
    | none => none

/-- At least one digit, and nothing but digits. -/
def naturalValue? (base : Nat) (cs : List Char) : Option Nat :=
  if cs.isEmpty then none else digitsValue? base 0 cs

/-- A natural number behind an optional sign. -/
def signedValue? (base : Nat) : List Char → Option Int
  | '+' :: cs => (naturalValue? base cs).map Int.ofNat
  | '-' :: cs => (naturalValue? base cs).map fun n => -(Int.ofNat n)
  | cs => (naturalValue? base cs).map Int.ofNat

/-- Keep a number that fits in a signed 128-bit word. -/
def fit128? (value : Int) : Option Int :=
  let limit : Int := Nat.pow 2 127
  if -limit ≤ value ∧ value < limit then some value else none

/-- Split the base mark off a numeral: its base, and its digits. -/
def splitBase : List Char → Nat × List Char
  | '0' :: 'x' :: cs => (16, cs)
  | '0' :: 'o' :: cs => (8, cs)
  | '0' :: 'b' :: cs => (2, cs)
  | cs => (10, cs)

/-- The value of an integer numeral as written: `1_000`, `0x1f`, `0o7`, `0b1`. -/
def intValue? (text : String) : Option Int :=
  let digits := (text.toList.filter (· != '_')).map Char.toLower
  let (base, digits) := splitBase digits
  (signedValue? base digits).bind fit128?

/-- A constant. -/
inductive Constant where
  /-- A numeral as written: integer, float or imaginary. -/
  | number (text : String)
  | bool (value : Bool)
  | none
  | ellipsis
deriving DecidableEq, Repr

/-- The value of an integer constant. -/
def Constant.intValue? : Constant → Option Int
  | number text => Scrutiny.intValue? text
  | _ => Option.none

/-! ### Strings -/

/-- Words that may open a replacement field without being a name. -/
def fieldKeywords : List String :=
  ["True", "False", "None", "not", "lambda", "await", "yield", "if", "else", "for", "in"]

/-- A character of a name in a replacement field. -/
def isFieldChar (c : Char) : Bool :=
  c == '_' || isAlphanumeric c

/-- Whether what a replacement field opens with is a name that it reads. -/
def isFieldName (word : List Char) : Bool :=
  (word.head?.any fun c => c == '_' || isAlphabetic c) &&
    !fieldKeywords.contains (String.ofList word)

/-- The name each replacement field of a string body opens with; a doubled brace
is a brace and opens no field. -/
def fieldNames : List Char → List String
  | [] => []
  | '\x7b' :: '\x7b' :: cs => fieldNames cs
  | '\x7b' :: cs =>
    let inside := cs.dropWhile isBlank
    let word := inside.takeWhile isFieldChar
    let rest := fieldNames (inside.dropWhile isFieldChar)
    if isFieldName word then String.ofList word :: rest else rest
  | _ :: cs => fieldNames cs
termination_by cs => cs.length
decreasing_by
  all_goals simp only [List.length_cons]
  · omega
  · have h₁ := (List.dropWhile_suffix (l := cs) isBlank).length_le
    have h₂ := (List.dropWhile_suffix (l := cs.dropWhile isBlank) isFieldChar).length_le
    omega
  · omega

/-- Adjacent string literals, which read as one. -/
structure StringLiteral where
  /-- Each literal as written. -/
  parts : List String
  /-- Whether some part is a bytes literal. -/
  isBytes : Bool
  /-- Whether some part has replacement fields. -/
  isFormatted : Bool
  /-- The names that replacement fields read. -/
  fields : List String
deriving DecidableEq, Repr

namespace StringLiteral

/-- The letters before the quotes of a part, in lower case. -/
def marks (part : String) : List Char :=
  (part.toList.takeWhile Char.isAlpha).map Char.toLower

/-- Whether a part has replacement fields. -/
def isFormattedPart (part : String) : Bool :=
  (marks part).contains 'f'

/-- The names that the replacement fields of one part read. -/
def partFields (part : String) : List String :=
  if isFormattedPart part then fieldNames (part.toList.dropWhile Char.isAlpha) else []

/-- The literal that some parts make. -/
def ofParts (parts : List String) : StringLiteral where
  parts
  isBytes := parts.any fun part => (marks part).contains 'b'
  isFormatted := parts.any isFormattedPart
  fields := parts.flatMap partFields

end StringLiteral

end Scrutiny
