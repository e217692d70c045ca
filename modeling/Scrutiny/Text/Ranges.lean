/-
Sets of code points given as a table of ranges.

A Unicode property is a fixed table, and its ranges are in ascending order.  A table
lists lengths only: how many codes are passed over, how many then are in the set, and
so on in turn.
-/

namespace Scrutiny

/-- Lengths of ranges of code points from 0 on, one outside a set and one inside it in
turn. -/
abbrev CodeRanges := List Nat

/-- Whether the code `n` places on is in the set, if the next range is `inside` it. -/
def CodeRanges.reaches (inside : Bool) : CodeRanges → Nat → Bool
  | [], _ => false
  | length :: rest, n => if n < length then inside else reaches (!inside) rest (n - length)

/-- Whether some range of the table holds `c`. -/
def CodeRanges.holds (table : CodeRanges) (c : Char) : Bool :=
  table.reaches false c.toNat

end Scrutiny
