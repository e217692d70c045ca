/-
Characters that should not be in a text.

Outside strings and comments such characters start no token, so those found in a
text that has a tree are hidden inside one of them, or are byte order marks.
-/
import Scrutiny.Check.Basic

namespace Scrutiny.Characters

/-- A kind of character that should not be there. -/
inductive Irregularity where
  | control (c : Char)
  /-- The character that stands for bytes which could not be read. -/
  | replacement
  /-- A byte order mark that is not at the start. -/
  | innerMark
  /-- A carriage return that no newline follows. -/
  | bareReturn
deriving DecidableEq, Repr

namespace Irregularity

/-- What an irregularity is called. -/
def describe : Irregularity → String
  | control c => s!"control character {codePointText c}"
  | replacement => "replacement character U+FFFD (source was not valid UTF-8)"
  | innerMark => "byte order mark inside the source"
  | bareReturn => "bare carriage return"

/-- Whether two irregularities are of one kind: control characters all are. -/
def sameKind : Irregularity → Irregularity → Bool
  | control _, control _ => true
  | a, b => a == b

/-- The irregularity of a character at an offset before some others, if it is one. -/
def of? (offset : Nat) (c : Char) (next : Option Char) : Option Irregularity :=
  if c = '\r' then if next = some '\n' then none else some bareReturn
  else if c = '\ufffd' then some replacement
  else if c = '\ufeff' then if 0 < offset then some innerMark else none
  else if c = '\t' ∨ c = '\n' ∨ c = '\x0c' then none
  else if isControl c then some (control c)
  else none

end Irregularity

/-- Every irregularity of a text that begins at an offset, with its own offset. -/
def occurrences (offset : Nat) : List Char → List (Nat × Irregularity)
  | [] => []
  | c :: cs =>
    ((Irregularity.of? offset c cs.head?).map (offset, ·)).toList ++
      occurrences (offset + c.utf8Size) cs

/-- The first irregularity of each kind in a text. -/
def firstOfEachKind (cs : List Char) : List (Nat × Irregularity) :=
  (occurrences 0 cs).eraseDupsBy fun a b => a.2.sameKind b.2

/-- Report the first character of each kind that should not be there. -/
def check : Check := .ofFindings "tokenization" fun subject =>
  (firstOfEachKind subject.chars).map fun (offset, irregularity) =>
    let line := subject.lineOf offset
    .error (subject.diagnosticAt line
      s!"Tokenization error: {irregularity.describe} at line {line}")

end Scrutiny.Characters
