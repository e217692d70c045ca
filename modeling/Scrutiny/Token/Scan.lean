/-
Scanning: a text cut into pieces.

Each piece is a token, a gap or a fault, and takes at least one character; put
together in order the pieces are the text (`pieces_chars`), so nothing is read
twice or passed over.  At each place the longest reading is taken
(`readToken?_longest`).  Readings that may start with the same character are tried
longest first: a string literal before a name, a numeral before a symbol.

Gaps are runs of spaces, tabs and form feeds, comments, protected line ends, and
the byte order mark.  A place where nothing can be read is a fault; it covers
everything some reading could take before it got stuck.
-/
import Scrutiny.Text.Lines
import Scrutiny.Text.Identifier
import Scrutiny.Text.Blank
import Scrutiny.Token.Number
import Scrutiny.Token.Quoted
import Scrutiny.Token.Fault

namespace Scrutiny

/-! ### Symbols and words -/

namespace Symbol

/-- Every symbol with the characters that write it. -/
def spellings : List (List Char × Symbol) :=
  ([opening .round, closing .round, opening .square, closing .square, opening .curly,
    closing .curly, comma, colon, semicolon, dot, ellipsis, arrow, walrus, atSign, assign,
    plus, minus, star, slash, doubleSlash, percent, doubleStar, lShift, rShift, amp, pipe,
    caret, tilde, lt, gt, ltEq, gtEq, eqEq, notEq, augmented .add, augmented .sub,
    augmented .mult, augmented .matMult, augmented .div, augmented .floorDiv, augmented .mod,
    augmented .pow, augmented .lShift, augmented .rShift, augmented .bitOr,
    augmented .bitXor, augmented .bitAnd] : List Symbol).map fun s => (s.text.toList, s)

/-- The symbol written exactly so. -/
def ofChars? (cs : List Char) : Option Symbol :=
  spellings.lookup cs

/-- The longest symbol at the front and its length; none has more than three
characters. -/
def read? (cs : List Char) : Option (Symbol × Nat) :=
  [3, 2, 1].findSome? fun n => (ofChars? (cs.take n)).map (·, n)

end Symbol

/-- The length of the identifier at the front, if there is one. -/
def wordLength? : List Char → Option Nat
  | c :: cs => if startsIdentifier c then some (1 + runLength continuesIdentifier cs) else none
  | [] => none

/-- A word as a token: a keyword if it is one. -/
def Token.ofWord (word : List Char) : Token :=
  match Keyword.ofText? (String.ofList word) with
  | some k => .keyword k
  | none => .name (String.ofList word)

/-! ### Gaps and line ends -/

/-- The characters that only separate tokens. -/
def isSpacing (c : Char) : Bool :=
  c == ' ' || c == '\t' || c == '\x0c'

/-- The byte order mark, which is passed over wherever it stands. -/
def byteOrderMark : Char := '\ufeff'

/-- The length of the line ending at the front: LF or CRLF. -/
def lineEndLength? : List Char → Option Nat
  | '\n' :: _ => some 1
  | '\r' :: '\n' :: _ => some 2
  | _ => none

/-- The length of the gap at the front, if there is one. -/
def gapLength? : List Char → Option Nat
  | [] => none
  | c :: cs =>
    if isSpacing c then some (1 + runLength isSpacing cs)
    else if c == '#' then some (1 + runLength (fun d => d != '\r' && d != '\n') cs)
    else if c == '\\' then (lineEndLength? cs).map (· + 1)
    else if c == byteOrderMark then some 1
    else none

/-! ### Pieces -/

/-- What a piece of text is. -/
inductive PieceKind where
  | token (token : Token)
  | gap
  | fault
deriving DecidableEq, Repr

/-- A piece of text. -/
structure Piece where
  kind : PieceKind
  chars : List Char
deriving DecidableEq, Repr

/-- The token at the front and its length, if there is one. -/
def readToken? (cs : List Char) : Option (Token × Nat) :=
  ((lineEndLength? cs).map fun n => (Token.newline, n)) <|>
  ((Quoted.length? cs).map fun n => (.string (String.ofList (cs.take n)), n)) <|>
  ((wordLength? cs).map fun n => (.ofWord (cs.take n), n)) <|>
  ((Numeral.length? cs).map fun n => (.number (String.ofList (cs.take n)), n)) <|>
  ((Symbol.read? cs).map fun (s, n) => (.symbol s, n))

/-- How much of the front an abandoned reading had taken; always something. -/
def faultLength : List Char → Nat
  | [] => 0
  | c :: cs =>
    if Quoted.isQuote c then 1 + Quoted.openLength c cs
    else if c == '\\' && cs.head? == some '\r' then 2
    else 1

/-- What stands at the front, and how many characters it takes. -/
def readPiece (cs : List Char) : PieceKind × Nat :=
  match gapLength? cs with
  | some n => (.gap, n)
  | none =>
    match readToken? cs with
    | some (t, n) => (.token t, n)
    | none => (.fault, faultLength cs)

/-- Cut a text into pieces, each at least one character long. -/
def pieces (cs : List Char) : List Piece :=
  match cs with
  | [] => []
  | c :: rest =>
    let (kind, n) := readPiece (c :: rest)
    ⟨kind, c :: rest.take (n - 1)⟩ :: pieces (rest.drop (n - 1))
termination_by cs.length
decreasing_by
  simp only [List.length_drop, List.length_cons]
  omega

/-- Nothing of the text is lost or read twice. -/
theorem pieces_chars (cs : List Char) : (pieces cs).flatMap Piece.chars = cs := by
  fun_induction pieces cs with
  | case1 => rfl
  | case2 c rest kind n _ ih => simp [ih]

/-! ### Tokens and faults with their places -/

/-- The tokens among the pieces of a text that begins at `offset`. -/
def lexemesFrom (offset : Nat) : List Piece → List Lexeme
  | [] => []
  | p :: ps =>
    let stop := offset + byteLength p.chars
    match p.kind with
    | .token t => ⟨t, ⟨offset, stop⟩⟩ :: lexemesFrom stop ps
    | _ => lexemesFrom stop ps

/-- The faulty pieces of a text that begins at `offset`, with their characters. -/
def faultsFrom (offset : Nat) : List Piece → List (List Char × Span)
  | [] => []
  | p :: ps =>
    let stop := offset + byteLength p.chars
    match p.kind with
    | .fault => (p.chars, ⟨offset, stop⟩) :: faultsFrom stop ps
    | _ => faultsFrom stop ps

/-- What is wrong with a faulty piece at `start`.  A quote that could not be read
right after two like it is what remains of an unclosed triple-quoted literal. -/
def TokenFault.ofPiece (cs : List Char) (table : LineTable) (piece : List Char)
    (start : Nat) : TokenFault :=
  match piece with
  | [] => .stray
  | c :: _ =>
    if Quoted.isQuote c then
      if sliceBytes? cs ⟨start - 2, start⟩ = some [c, c] then .unclosedTriple (table.line start)
      else .unclosedQuote (table.line start)
    else if isControl c then .control c
    else if c.toNat < 0x80 then .stray
    else .foreign c

/-- The tokens of a text as they stand in it, or everything wrong with it. -/
def scan (cs : List Char) : Except TokenErrors (List Lexeme) :=
  let ps := pieces cs
  let table := LineTable.ofText cs
  match (faultsFrom 0 ps).map fun (chars, span) =>
      (⟨.ofPiece cs table chars span.start, span⟩ : TokenError) with
  | first :: more => .error ⟨first, more⟩
  | [] => .ok (lexemesFrom 0 ps)

end Scrutiny
