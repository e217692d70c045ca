/-
Doubles without their sign, computed exactly.

A double is a natural number below 2^53 times a power of two.  Every operation
computes its exact result as a ratio and rounds it once, to the nearest double, a
tie going to the even one.
-/

namespace Scrutiny

/-- `mantissa * 2 ^ exponent`. -/
structure Double where
  mantissa : Nat
  exponent : Int
deriving DecidableEq, Repr

namespace Double

/-- The exponent of the smallest doubles. -/
def minExponent : Int := -1074

/-- The exponent of the largest doubles. -/
def maxExponent : Int := 971

/-- A ratio rounded to the nearest natural number, a tie to the even one. -/
def roundDiv (num den : Nat) : Nat :=
  let q := num / den
  let r := num % den
  if den < 2 * r ∨ (2 * r = den ∧ q % 2 = 1) then q + 1 else q

/-- A ratio divided by a power of two. -/
def scale (num den : Nat) : Int → Nat × Nat
  | .ofNat k => (num, den * Nat.pow 2 k)
  | .negSucc k => (num * Nat.pow 2 (k + 1), den)

/-- The double nearest to a ratio.  One whose exponent is too large stands for a
number out of range. -/
def ofRatio (num den : Nat) : Double :=
  if num = 0 then ⟨0, minExponent⟩
  else
    let guess : Int := num.log2 - den.log2 - 53
    let (a, b) := scale num den guess
    let exact := if a / b < Nat.pow 2 53 then guess else guess + 1
    let exponent := max exact minExponent
    let (a, b) := scale num den exponent
    let mantissa := roundDiv a b
    if mantissa = Nat.pow 2 53 then ⟨Nat.pow 2 52, exponent + 1⟩ else ⟨mantissa, exponent⟩

/-- A double as a ratio. -/
def toRatio (d : Double) : Nat × Nat :=
  match d.exponent with
  | .ofNat k => (d.mantissa * Nat.pow 2 k, 1)
  | .negSucc k => (d.mantissa, Nat.pow 2 (k + 1))

/-- The double nearest to a natural number. -/
def ofNat (n : Nat) : Double := ofRatio n 1

/-- Whether a double is in range. -/
def isFinite (d : Double) : Bool := d.exponent ≤ maxExponent

/-- The product, rounded. -/
def mul (x y : Double) : Double :=
  let (a, b) := x.toRatio
  let (c, d) := y.toRatio
  ofRatio (a * c) (b * d)

/-- The quotient, rounded. -/
def div (x y : Double) : Double :=
  let (a, b) := x.toRatio
  let (c, d) := y.toRatio
  ofRatio (a * d) (b * c)

/-- The largest power of ten that is a double. -/
def maxPower : Nat := 308

/-- `significand * 10 ^ exponent`, worked out as a product or quotient of doubles;
nothing if it is out of range. -/
def ofDecimal? (significand : Double) (exponent : Int) : Option Double :=
  if exponent.natAbs ≤ maxPower then
    let power := ofNat (Nat.pow 10 exponent.natAbs)
    if 0 ≤ exponent then
      let product := significand.mul power
      if product.isFinite then some product else none
    else some (significand.div power)
  else if significand.mantissa = 0 then some significand
  else if 0 ≤ exponent then none
  else ofDecimal? (significand.div (ofNat (Nat.pow 10 maxPower))) (exponent + maxPower)
termination_by (-exponent).toNat
decreasing_by
  simp only [maxPower] at *
  omega

end Double

end Scrutiny
