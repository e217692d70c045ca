/-
Layout: from the lines of a text to its logical lines and blocks.

Newlines on blank lines and inside brackets are dropped.  The first token of a
logical line sets its indentation; a deeper one puts an indent before it, and a
return to an enclosing level puts one dedent per level left, so that blocks nest
like brackets.  Each logical line is also recorded on its own, with the
indentation as written.

The layout fails at the first token that closes a bracket wrongly or returns to
no enclosing level, and otherwise at the innermost bracket that is still open at
the end.
-/
import Scrutiny.Token.Scan

namespace Scrutiny

/-- One logical line. -/
structure LogicalLine where
  /-- The line its first token stands on, from one. -/
  line : Nat
  /-- The spaces and tabs before its first token. -/
  indent : String
  /-- Whether its last token is a colon, so that a block follows. -/
  opensBlock : Bool
deriving DecidableEq, Repr

/-- The token stream of a text, and its logical lines. -/
structure TokenStream where
  tokens : List Lexeme
  lines : List LogicalLine
deriving DecidableEq, Repr

namespace TokenStream

/-- Put a token in front. -/
def cons (lexeme : Lexeme) (stream : TokenStream) : TokenStream :=
  { stream with tokens := lexeme :: stream.tokens }

/-- Put tokens in front. -/
def prepend (lexemes : List Lexeme) (stream : TokenStream) : TokenStream :=
  { stream with tokens := lexemes ++ stream.tokens }

/-- Put a newline in front, and record the logical line it ends. -/
def consLine (line : LogicalLine) (span : Span) (stream : TokenStream) : TokenStream :=
  ⟨⟨.newline, span⟩ :: stream.tokens, line :: stream.lines⟩

end TokenStream

namespace Layout

/-! ### Indentation -/

/-- The column after one more character of indentation: a tab goes to the next
multiple of eight, a form feed back to the margin. -/
def advance (column : Nat) (c : Char) : Nat :=
  if c = ' ' then column + 1
  else if c = '\t' then (column / 8 + 1) * 8
  else if c = '\x0c' then 0
  else column

/-- The width of what stands before the first token of a line. -/
def width (head : List Char) : Nat :=
  head.foldl advance 0

/-- The indentation as written: the spaces and tabs alone. -/
def indentText (head : List Char) : String :=
  String.ofList (head.filter fun c => c == ' ' || c == '\t')

/-! ### State -/

/-- Where the layout stands between two tokens. -/
structure State where
  /-- Widths of the open blocks, innermost first; the margin, zero, is below them. -/
  indents : List Nat
  /-- The open brackets, innermost first. -/
  brackets : List (Bracket × Span)
  /-- The logical line in progress, as it would be if it ended here. -/
  line? : Option LogicalLine
deriving Repr

/-- At the start of a text nothing is open. -/
def State.initial : State := ⟨[], [], none⟩

/-- Move to a line of the given width: the widths then open, and the marks to put
before its first token.  `none` if the width is less than the current one and
equal to none below it. -/
def reindent? (indents : List Nat) (width : Nat) : Option (List Nat × List Token) :=
  let level := indents.headD 0
  if level < width then
    some (width :: indents, [.indent])
  else
    let kept := indents.dropWhile (width < ·)
    if kept.headD 0 = width then
      some (kept, List.replicate (indents.length - kept.length) .dedent)
    else
      none

/-- Begin a logical line at a token, if none is in progress. -/
def State.begin? (cs : List Char) (table : LineTable) (span : Span) (state : State) :
    Option (State × List Lexeme) :=
  match state.line? with
  | some _ => some (state, [])
  | none =>
    let head := lineHead cs span.start
    (reindent? state.indents (width head)).map fun (indents, marks) =>
      ({ state with
          indents
          line? := some ⟨table.line span.start, indentText head, false⟩ },
        marks.map (⟨·, .point span.start⟩))

/-- Follow the brackets through one token. -/
def matchBrackets (brackets : List (Bracket × Span)) (lexeme : Lexeme) :
    Except TokenFault (List (Bracket × Span)) :=
  match lexeme.token with
  | .symbol (.opening b) => .ok ((b, lexeme.span) :: brackets)
  | .symbol (.closing b) =>
    match brackets with
    | [] => .error (.unmatched b)
    | (open_, _) :: rest => if open_ = b then .ok rest else .error (.mismatched b open_)
  | _ => .ok brackets

/-- Note a token as the last one of the line in progress. -/
def State.noteLast (token : Token) (state : State) : State :=
  { state with
    line? := state.line?.map fun line =>
      { line with opensBlock := token == .symbol .colon } }

/-- What a text ends with: the newline of an unfinished line, and a dedent for
every open block. -/
def finish (size : Nat) (state : State) : Except TokenError TokenStream :=
  match state.brackets with
  | (b, span) :: _ => .error ⟨.unclosed b, span⟩
  | [] =>
    let dedents := List.replicate state.indents.length ⟨.dedent, .point size⟩
    match state.line? with
    | some line => .ok (.consLine line (.point size) ⟨dedents, []⟩)
    | none => .ok ⟨dedents, []⟩

/-- Lay out the tokens of a text from a given state on. -/
def run (cs : List Char) (table : LineTable) :
    State → List Lexeme → Except TokenError TokenStream
  | state, [] => finish table.size state
  | state, lexeme :: rest =>
    if lexeme.token = .newline then
      match state.line?, state.brackets with
      | some line, [] =>
        (run cs table { state with line? := none } rest).map (·.consLine line lexeme.span)
      | _, _ => run cs table state rest
    else
      match state.begin? cs table lexeme.span with
      | none => .error ⟨.unevenDedent, lexeme.span⟩
      | some (begun, marks) =>
        match matchBrackets begun.brackets lexeme with
        | .error fault => .error ⟨fault, lexeme.span⟩
        | .ok brackets =>
          (run cs table ({ begun with brackets }.noteLast lexeme.token) rest).map fun stream =>
            (stream.cons lexeme).prepend marks

end Layout

/-- The token stream of a text, or what is wrong with it: all faults of its
characters, or else the first fault of its layout. -/
def tokenize (source : String) : Except TokenErrors TokenStream :=
  let cs := source.toList
  match scan cs with
  | .error errors => .error errors
  | .ok lexemes =>
    match Layout.run cs (LineTable.ofText cs) .initial lexemes with
    | .error error => .error ⟨error, []⟩
    | .ok stream => .ok stream

end Scrutiny
