/-
What can be wrong with a text before its grammar is looked at: characters that
belong to no token, unclosed literals, brackets that do not pair, and indentation
that returns to no enclosing level.
-/
import Scrutiny.Token.Basic

namespace Scrutiny

/-- Why a text has no token stream. -/
inductive TokenFault where
  /-- A triple-quoted literal that starts on the given line is not closed. -/
  | unclosedTriple (line : Nat)
  /-- A one-quote literal that starts on the given line is not closed on it. -/
  | unclosedQuote (line : Nat)
  /-- A control character outside literals and comments. -/
  | control (c : Char)
  /-- An ASCII character that starts no token. -/
  | stray
  /-- A character beyond ASCII that starts no token. -/
  | foreign (c : Char)
  /-- A line is indented less than the one before, and like none around it. -/
  | unevenDedent
  /-- A closing bracket with nothing open. -/
  | unmatched (closing : Bracket)
  /-- A closing bracket of another kind than the innermost open one. -/
  | mismatched (closing opening : Bracket)
  /-- A bracket still open at the end. -/
  | unclosed (opening : Bracket)
deriving DecidableEq, Repr

/-- A code point as `U+` and at least four hexadecimal digits. -/
def codePointText (c : Char) : String :=
  let digits := (Nat.toDigits 16 c.toNat).map Char.toUpper
  "U+" ++ String.ofList (List.replicate (4 - digits.length) '0' ++ digits)

/-- The wording of a fault. -/
def TokenFault.message : TokenFault → String
  | unclosedTriple line =>
    s!"unterminated triple-quoted string literal (detected at line {line})"
  | unclosedQuote line => s!"unterminated string literal (detected at line {line})"
  | control c => s!"invalid non-printable character {codePointText c}"
  | stray => "invalid syntax"
  | foreign c => s!"invalid character '{c}' ({codePointText c})"
  | unevenDedent => "unindent does not match any outer indentation level"
  | unmatched b => s!"unmatched '{b.closer}'"
  | mismatched b open_ =>
    s!"closing parenthesis '{b.closer}' does not match opening parenthesis '{open_.opener}'"
  | unclosed b => s!"'{b.opener}' was never closed"

/-- A fault and where it shows. -/
structure TokenError where
  fault : TokenFault
  span : Span
deriving DecidableEq, Repr

/-- The faults of a text that has any, in order of appearance. -/
structure TokenErrors where
  first : TokenError
  more : List TokenError
deriving DecidableEq, Repr

/-- All faults as a list. -/
def TokenErrors.toList (errors : TokenErrors) : List TokenError :=
  errors.first :: errors.more

end Scrutiny
