/-
Byte offsets into a list of characters.

A text is scanned as a list of characters and reported on in byte offsets.  This
file is the bridge: how many bytes a run of characters takes, and where a byte
offset cuts it.  An offset inside a multi-byte character cuts nothing.
-/
import Scrutiny.Text.Span

namespace Scrutiny

/-- How many bytes the characters take in UTF-8. -/
def byteLength : List Char → Nat
  | [] => 0
  | c :: cs => c.utf8Size + byteLength cs

@[simp] theorem byteLength_nil : byteLength [] = 0 := rfl

@[simp] theorem byteLength_cons (c : Char) (cs : List Char) :
    byteLength (c :: cs) = c.utf8Size + byteLength cs := rfl

@[simp] theorem byteLength_append (as bs : List Char) :
    byteLength (as ++ bs) = byteLength as + byteLength bs := by
  induction as with
  | nil => simp
  | cons c cs ih => simp [ih, Nat.add_assoc]

/-- Split a text at a byte offset; nothing if the offset is past the end or falls
inside a character. -/
def splitAtByte? : Nat → List Char → Option (List Char × List Char)
  | 0, cs => some ([], cs)
  | _ + 1, [] => none
  | n + 1, c :: cs =>
    if c.utf8Size ≤ n + 1 then
      (splitAtByte? (n + 1 - c.utf8Size) cs).map fun (before, after) => (c :: before, after)
    else
      none

/-- The characters a span covers, if both its ends fall between characters. -/
def sliceBytes? (cs : List Char) (span : Span) : Option (List Char) :=
  if span.start ≤ span.stop then do
    let (_, rest) ← splitAtByte? span.start cs
    let (inside, _) ← splitAtByte? (span.stop - span.start) rest
    some inside
  else
    none

/-- The characters of the line in progress at byte `offset`: everything between
the last newline before it and it. -/
def lineHead (cs : List Char) (offset : Nat) : List Char :=
  match splitAtByte? offset cs with
  | some (before, _) => (before.reverse.takeWhile (· != '\n')).reverse
  | none => []

end Scrutiny
