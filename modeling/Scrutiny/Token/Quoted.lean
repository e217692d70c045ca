/-
String literals: where one ends.

A literal is up to two letters, an opening delimiter of one quote or three, a body
and the same delimiter again.  In the body a backslash protects the character
after it, and a CRLF pair counts as one character there if the delimiter is one
quote.  With one quote no line may end unprotected in the body.

Where both delimiters fit, three quotes are tried first: if that reading closes it
is the longer one, and if it does not, the first two quotes are an empty literal.
-/
import Scrutiny.Token.Number

namespace Scrutiny.Quoted

/-- The letters that may stand before the quotes. -/
def isMarkLetter (c : Char) : Bool :=
  c ∈ ['r', 'R', 'b', 'B', 'u', 'U', 'f', 'F']

/-- The two characters that quote. -/
def isQuote (c : Char) : Bool :=
  c == '"' || c == '\''

/-- How far a body reaches that one quote `q` closes, the closing quote included. -/
def closeOne? (q : Char) : List Char → Option Nat
  | [] => none
  | ['\\'] => none
  | '\\' :: '\r' :: '\n' :: cs => (closeOne? q cs).map (· + 3)
  | '\\' :: _ :: cs => (closeOne? q cs).map (· + 2)
  | c :: cs =>
    if c = q then some 1
    else if c = '\r' ∨ c = '\n' then none
    else (closeOne? q cs).map (· + 1)

/-- How far a body reaches that three quotes `q` close, the closing ones included. -/
def closeThree? (q : Char) : List Char → Option Nat
  | [] => none
  | ['\\'] => none
  | '\\' :: _ :: cs => (closeThree? q cs).map (· + 2)
  | c :: cs =>
    if c = q ∧ cs.take 2 = [q, q] then some 3
    else (closeThree? q cs).map (· + 1)

/-- The literal whose opening quote is the first character. -/
def unmarkedLength? : List Char → Option Nat
  | q :: cs =>
    if isQuote q then
      let three := if cs.take 2 = [q, q] then (closeThree? q (cs.drop 2)).map (· + 3) else none
      three.orElse fun _ => (closeOne? q cs).map (· + 1)
    else
      none
  | [] => none

/-- The string literal at the front, if there is one. -/
def length? (cs : List Char) : Option Nat :=
  let letters := runLength isMarkLetter (cs.take 2)
  (unmarkedLength? (cs.drop letters)).map (· + letters)

/-- How far a one-quote body can be read when nothing closes it: up to the line's
end, or to the end of the text. -/
def openLength (q : Char) : List Char → Nat
  | [] => 0
  | ['\\'] => 1
  | '\\' :: '\r' :: '\n' :: cs => 3 + openLength q cs
  | '\\' :: _ :: cs => 2 + openLength q cs
  | c :: cs => if c = q ∨ c = '\r' ∨ c = '\n' then 0 else 1 + openLength q cs

end Scrutiny.Quoted
