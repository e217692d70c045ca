/-
Operators of the language under scrutiny, and how they are written.
-/

namespace Scrutiny

/-- Binary arithmetic and bitwise operators; each has an augmented form. -/
inductive BinOp where
  | add | sub | mult | matMult | div | floorDiv | mod | pow
  | lShift | rShift | bitOr | bitXor | bitAnd
deriving DecidableEq, Repr

/-- How a binary operator is written. -/
def BinOp.text : BinOp → String
  | .add => "+"
  | .sub => "-"
  | .mult => "*"
  | .matMult => "@"
  | .div => "/"
  | .floorDiv => "//"
  | .mod => "%"
  | .pow => "**"
  | .lShift => "<<"
  | .rShift => ">>"
  | .bitOr => "|"
  | .bitXor => "^"
  | .bitAnd => "&"

/-- The short-circuit operators. -/
inductive BoolOp where
  | and | or
deriving DecidableEq, Repr

/-- Operators written before their operand. -/
inductive UnaryOp where
  | not | invert | plus | minus
deriving DecidableEq, Repr

/-- Comparisons, which chain. -/
inductive CmpOp where
  | eq | notEq | lt | ltE | gt | gtE | is | isNot | in | notIn
deriving DecidableEq, Repr

/-- How a comparison is written. -/
def CmpOp.text : CmpOp → String
  | .eq => "=="
  | .notEq => "!="
  | .lt => "<"
  | .ltE => "<="
  | .gt => ">"
  | .gtE => ">="
  | .is => "is"
  | .isNot => "is not"
  | .in => "in"
  | .notIn => "not in"

end Scrutiny
