/-
Text patterns.

A pattern is matched at a place in a text and gives the places where a match may
end, the preferred one first: a repetition prefers more, an option prefers to be
there, a choice prefers its first branch.  Searching takes the first place that
matches and its preferred end, and goes on from there.
-/
import Scrutiny.Text.Alphabet
import Scrutiny.Text.Blank

namespace Scrutiny

/-- What to look for in a text. -/
inductive Pattern where
  /-- One character of a class. -/
  | one (is : Char → Bool)
  /-- Any number of characters of a class. -/
  | many (is : Char → Bool)
  | seq (first second : Pattern)
  | either (first second : Pattern)
  | option (inner : Pattern)
  /-- Between a word character and something else. -/
  | wordEdge
  /-- At the start of a line. -/
  | lineStart
  /-- At the end of a line. -/
  | lineEnd

namespace Pattern

/-- A place in a text: the character before it and everything after it. -/
structure Place where
  before : Option Char
  rest : List Char

/-- The places after each of the characters of a class at the front, furthest first,
then the places given. -/
def runEnds (is : Char → Bool) (sofar : List Place) : Option Char → List Char → List Place
  | before, [] => ⟨before, []⟩ :: sofar
  | before, c :: cs =>
    let here := ⟨before, c :: cs⟩ :: sofar
    if is c then runEnds is here (some c) cs else here

/-- The places where a match that begins here may end, the preferred one first. -/
def ends : Pattern → Place → List Place
  | one is, place =>
    match place.rest with
    | c :: cs => if is c then [⟨some c, cs⟩] else []
    | [] => []
  | many is, place => runEnds is [] place.before place.rest
  | seq first second, place => (first.ends place).flatMap second.ends
  | either first second, place => first.ends place ++ second.ends place
  | option inner, place => inner.ends place ++ [place]
  | wordEdge, place =>
    if place.before.any isWordChar != place.rest.head?.any isWordChar then [place] else []
  | lineStart, place => if place.before.all (· == '\n') then [place] else []
  | lineEnd, place => if place.rest.head?.all (· == '\n') then [place] else []

/-! ### Searching -/

/-- Whether a pattern matches somewhere from here on. -/
def foundFrom (p : Pattern) : Option Char → List Char → Bool
  | before, [] => !(p.ends ⟨before, []⟩).isEmpty
  | before, c :: cs => !(p.ends ⟨before, c :: cs⟩).isEmpty || foundFrom p (some c) cs

/-- Whether a pattern matches somewhere in a text. -/
def isIn (p : Pattern) (cs : List Char) : Bool := p.foundFrom none cs

/-- The matches from here on that do not overlap, each with its offset in bytes.
`skip` characters still belong to the match before. -/
def matchesFrom (p : Pattern) (offset skip : Nat) :
    Option Char → List Char → List (Nat × String)
  | _, [] => []
  | before, c :: cs =>
    let next := offset + c.utf8Size
    match skip with
    | skip + 1 => matchesFrom p next skip (some c) cs
    | 0 =>
      match p.ends ⟨before, c :: cs⟩ with
      | [] => matchesFrom p next 0 (some c) cs
      | stop :: _ =>
        let size := cs.length + 1 - stop.rest.length
        (offset, String.ofList ((c :: cs).take size)) ::
          matchesFrom p next (size - 1) (some c) cs

/-- The matches of a pattern in a text, from left to right, none overlapping, each
with its offset in bytes. -/
def matchesIn (p : Pattern) (cs : List Char) : List (Nat × String) :=
  p.matchesFrom 0 0 none cs

/-! ### Building patterns -/

/-- Nothing at all, which matches anywhere. -/
def nothing : Pattern := many fun _ => false

/-- One thing after another. -/
def concat : List Pattern → Pattern
  | [] => nothing
  | [p] => p
  | p :: ps => seq p (concat ps)

/-- A text as it is. -/
def literal (text : String) : Pattern :=
  concat (text.toList.map fun c => one (· == c))

/-- One of some texts. -/
def anyOf : List String → Pattern
  | [] => one fun _ => false
  | [text] => literal text
  | text :: texts => either (literal text) (anyOf texts)

/-- At least one character of a class. -/
def some1 (is : Char → Bool) : Pattern := seq (one is) (many is)

/-- Any amount of white space. -/
def blanks : Pattern := many isBlank

/-- Some white space. -/
def blanks1 : Pattern := some1 isBlank

/-- Anything but the end of the line. -/
def restOfLine : Pattern := many (· != '\n')

/-- A single or a double quote. -/
def quote : Pattern := one fun c => c == '"' || c == '\''

/-- A word that begins here. -/
def wordAt (text : String) : Pattern := seq wordEdge (literal text)

end Pattern

/-- Whether a text occurs in another. -/
def occursIn (needle : String) (cs : List Char) : Bool :=
  (Pattern.literal needle).isIn cs

end Scrutiny
