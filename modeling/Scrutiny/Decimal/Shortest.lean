/-
The shortest decimal that reads back as a double.

The reals that round to a double are an interval around it, which has its ends if
the mantissa is even.  On the grids of one, two, up to seventeen significant digits
the two neighbours of the double are tried; the first grid with a neighbour in the
interval wins, and of two neighbours the nearer.
-/
import Scrutiny.Decimal.Double

namespace Scrutiny

/-- `digits * 10 ^ exponent`. -/
structure Decimal where
  digits : Nat
  exponent : Int
deriving DecidableEq, Repr

namespace Decimal

/-- A decimal as a ratio. -/
def toRatio (d : Decimal) : Nat × Nat :=
  match d.exponent with
  | .ofNat k => (d.digits * Nat.pow 10 k, 1)
  | .negSucc k => (d.digits, Nat.pow 10 (k + 1))

/-- Whether a ratio is below another. -/
def ratioLt (x y : Nat × Nat) : Bool := x.1 * y.2 < y.1 * x.2

/-- Whether a decimal rounds to a double. -/
def readsAs (candidate : Decimal) (d : Double) : Bool :=
  let x := candidate.toRatio
  let high := (Double.mk (2 * d.mantissa + 1) (d.exponent - 1)).toRatio
  let low :=
    if d.mantissa = Nat.pow 2 52 ∧ Double.minExponent < d.exponent then
      (Double.mk (4 * d.mantissa - 1) (d.exponent - 2)).toRatio
    else (Double.mk (2 * d.mantissa - 1) (d.exponent - 1)).toRatio
  if d.mantissa % 2 = 0 then !ratioLt x low && !ratioLt high x
  else ratioLt low x && ratioLt x high

/-- The exponent of the leading digit of a ratio that is not zero. -/
def leadingExponent (x : Nat × Nat) : Int :=
  let guess : Int := ((x.1.log2 : Int) - x.2.log2) * 30103 / 100000
  let above := [guess + 1, guess].find? fun e => !ratioLt x (Decimal.mk 1 e).toRatio
  above.getD (guess - 1)

/-- Of the two neighbours of a double on a grid, those that read back, the nearer
first. -/
def onGrid? (d : Double) (x : Nat × Nat) (exponent : Int) : Option Decimal :=
  let (a, b) := (Decimal.mk 1 exponent).toRatio
  let num := x.1 * b
  let den := x.2 * a
  let floor := num / den
  let nearest := Double.roundDiv num den
  let other := if nearest = floor then floor + 1 else floor
  ([nearest, other].map (Decimal.mk · exponent)).find? (·.readsAs d)

/-- The shortest decimal that reads back as a double that is not zero. -/
def shortest (d : Double) : Decimal :=
  let x := d.toRatio
  let top := leadingExponent x
  ((List.range 17).findSome? fun (n : Nat) => onGrid? d x (top - n)).getD ⟨0, 0⟩

/-! ### Writing -/

/-- The digits of a decimal without zeros at the end. -/
def digitText (d : Decimal) : List Char :=
  ((Nat.toDigits 10 d.digits).reverse.dropWhile (· == '0')).reverse

/-- The exponent of the leading digit. -/
def leading (d : Decimal) : Int :=
  d.exponent + (Nat.toDigits 10 d.digits).length - 1

/-- An exponent with its sign and at least two digits. -/
def exponentText (e : Int) : List Char :=
  let digits := Nat.toDigits 10 e.natAbs
  (if e < 0 then '-' else '+') :: List.replicate (2 - digits.length) '0' ++ digits

/-- A decimal as text: with a point when the leading digit is between the fifth
place after it and the sixteenth before it, and with an exponent otherwise. -/
def text (d : Decimal) : String :=
  let digits := d.digitText
  let e := d.leading
  String.ofList <|
    if 0 ≤ e ∧ e ≤ 15 then
      let whole := e.toNat + 1
      digits.take whole ++ List.replicate (whole - digits.length) '0' ++ '.' ::
        if digits.length ≤ whole then ['0'] else digits.drop whole
    else if -5 ≤ e ∧ e < 0 then
      '0' :: '.' :: List.replicate (e.natAbs - 1) '0' ++ digits
    else
      digits.take 1 ++ (if digits.length ≤ 1 then [] else '.' :: digits.drop 1) ++
        'e' :: exponentText e

end Decimal

/-- A double as text, in the fewest digits that read back. -/
def Double.text (d : Double) : String :=
  if d.mantissa = 0 then "0.0" else (Decimal.shortest d).text

end Scrutiny
