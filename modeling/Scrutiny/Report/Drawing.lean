/-
Drawing a diagnostic under the line it points at.

The line is drawn with the part from the column to its end underlined, the first
suggestion hung from the middle of the underline, and the others as notes.  Rows
are laid out character by character, each as wide as it is drawn, so that the
underline fits whatever the line holds.
-/
import Scrutiny.Report.Diagnostic
import Scrutiny.Text.Blank
import Scrutiny.Text.Width

namespace Scrutiny

/-! ### The part of a text that a diagnostic points at -/

/-- The byte offset of character `column`, from one, of a line; past its end that
of its last character. -/
def columnOffset (line : List Char) (column : Nat) : Nat :=
  byteLength (line.take (min (column - 1) (line.length - 1)))

/-- The bytes from a diagnostic's column to the end of its line; nothing if there is
no such line or it is empty. -/
def Diagnostic.spanIn? (d : Diagnostic) (cs : List Char) : Option Span := do
  let context ← d.context
  guard (context.line ≠ 0)
  let chunks := lineChunks cs
  let chunk ← chunks[context.line - 1]?
  let content := lineContent chunk
  guard (content ≠ [])
  let lineStart := byteLength (chunks.take (context.line - 1)).flatten
  let start := columnOffset content (max (context.column.getD 1) 1)
  some ⟨lineStart + start, lineStart + byteLength content⟩

namespace Drawing

/-! ### Lines as drawn -/

/-- Whether a drawn line ends with a character: a newline, a carriage return, a
vertical tab, a form feed, or a separator of lines or paragraphs. -/
def endsLine (c : Char) : Bool :=
  ['\n', '\r', '\x0b', '\x0c', '\u0085', '\u2028', '\u2029'].contains c

/-- Cut a text after every end of a drawn line; CRLF is one end. -/
def drawnLines : List Char → List (List Char)
  | [] => []
  | '\r' :: '\n' :: cs => ['\r', '\n'] :: drawnLines cs
  | c :: cs =>
    if endsLine c then [c] :: drawnLines cs
    else
      match drawnLines cs with
      | [] => [[c]]
      | line :: lines => (c :: line) :: lines

/-- A line of a text as it is drawn. -/
structure DrawnLine where
  /-- Its number, from one. -/
  number : Nat
  /-- The byte offset it starts at. -/
  start : Nat
  chars : List Char

/-- The drawn line that holds a byte offset; the first of the given lines has the
given number and start. -/
def lineAt (offset : Nat) : Nat → Nat → List (List Char) → DrawnLine
  | number, start, [] => ⟨number, start, []⟩
  | number, start, line :: lines =>
    let next := start + byteLength line
    if offset < next ∨ lines = [] then ⟨number, start, line⟩
    else lineAt offset (number + 1) next lines

/-! ### Characters as drawn -/

/-- What is drawn for the character at an index of a line, and how wide: a tab
goes to the next multiple of four of its index, other white space is one space. -/
def glyph (index : Nat) (c : Char) : Char × Nat :=
  if c = '\t' then (' ', (index / 4 + 1) * 4 - index)
  else if isBlank c then (' ', 1)
  else (c, displayWidth c)

/-- A line as drawn. -/
def drawLine (line : List Char) : String :=
  String.ofList (line.mapIdx (fun index c =>
    let (shown, width) := glyph index c
    if isBlank shown then List.replicate width shown else [shown])).flatten

/-- How wide each of `count` places of a line is drawn; places past its end are one
column wide. -/
def widths (line : List Char) (count : Nat) : List Nat :=
  (line.mapIdx fun index c => (glyph index c).2).take count ++
    List.replicate (count - line.length) 1

/-- Draw a row from a first and a following character for each place. -/
def drawRow (widths : List Nat) (pick : Nat → Char × Char) : String :=
  String.ofList (widths.mapIdx (fun index width =>
    let (first, next) := pick index
    List.replicate (min width 1) first ++ List.replicate (width - 1) next)).flatten

/-! ### The report -/

/-- Which characters of a line to underline. -/
structure Mark where
  /-- The index of the first. -/
  start : Nat
  /-- The index after the last. -/
  stop : Nat

/-- The index that the label hangs from. -/
def Mark.middle (mark : Mark) : Nat :=
  mark.start + (mark.stop - mark.start) / 2

/-- The underline. -/
def underline (widths : List Nat) (mark : Mark) : String :=
  drawRow widths fun index =>
    if index = mark.middle then ('┬', '─')
    else if mark.start ≤ index ∧ index < mark.stop then ('─', '─')
    else (' ', ' ')

/-- The line from the underline to the label. -/
def hook (widths : List Nat) (mark : Mark) : String :=
  drawRow widths fun index =>
    if index = mark.middle then ('╰', '─')
    else if mark.middle < index then ('─', '─')
    else (' ', ' ')

/-- The notes, numbered if there are several. -/
def notes (texts : List String) : List String :=
  match texts with
  | [text] => [s!"Note: {text}"]
  | texts => texts.mapIdx fun i text => s!"Note {i + 1}: {text}"

/-- The rows of a report on a line. -/
def rows (message : String) (line : DrawnLine) (mark : Mark) (label : String)
    (texts : List String) : List String :=
  let number := line.number
  let shown := trimEnd line.chars
  let ws := widths shown (mark.stop + 2)
  let margin := (toString number).length + 2
  let pad := String.ofList (List.replicate margin ' ')
  [s!"Error: {message}",
    s!"{pad}╭─[ <unknown>:{number}:{mark.start + 1} ]",
    s!"{pad}│",
    s!" {number} │ {drawLine shown}",
    s!"{pad}│ {underline ws mark}",
    s!"{pad}│ {hook ws mark} {label}"] ++
  (notes texts).flatMap (fun note => [s!"{pad}│ ", s!"{pad}│ {note}"]) ++
  [String.ofList (List.replicate margin '─') ++ "╯"]

end Drawing

/-- Draw a diagnostic against its source.  Without a place in the source it is
written out instead. -/
def Diagnostic.render (d : Diagnostic) (source : String) : String :=
  let cs := source.toList
  match d.spanIn? cs with
  | some span =>
    let line := Drawing.lineAt span.start 1 0 (Drawing.drawnLines cs)
    let before := ((sliceBytes? cs ⟨line.start, span.start⟩).getD []).length
    let marked := ((sliceBytes? cs span).getD []).length
    let label := d.suggestions.head?.getD "here"
    String.join ((Drawing.rows d.message line ⟨before, before + marked⟩ label
      (d.suggestions.drop 1)).map (· ++ "\n"))
  | none => d.format true

end Scrutiny
