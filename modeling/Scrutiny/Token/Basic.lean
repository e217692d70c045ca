/-
Tokens.

A token is a keyword, a symbol, a literal or name kept as written, or a layout
mark.  Newlines come from the text; indents and dedents are put in by the layout
(`Token/Layout.lean`) and never scanned.  `Token.text` is how a token is written,
so for a scanned token it is the source text it came from.
-/
import Scrutiny.Syntax.Operator
import Scrutiny.Text.Span

namespace Scrutiny

/-- Reserved words. -/
inductive Keyword where
  | false_ | none_ | true_ | and_ | as_ | assert_ | async_ | await_ | break_ | class_
  | continue_ | def_ | del_ | elif_ | else_ | except_ | finally_ | for_ | from_ | global_
  | if_ | import_ | in_ | is_ | lambda_ | nonlocal_ | not_ | or_ | pass_ | raise_
  | return_ | try_ | while_ | with_ | yield_
deriving DecidableEq, Repr

namespace Keyword

/-- How a keyword is written. -/
def text : Keyword → String
  | false_ => "False"
  | none_ => "None"
  | true_ => "True"
  | and_ => "and"
  | as_ => "as"
  | assert_ => "assert"
  | async_ => "async"
  | await_ => "await"
  | break_ => "break"
  | class_ => "class"
  | continue_ => "continue"
  | def_ => "def"
  | del_ => "del"
  | elif_ => "elif"
  | else_ => "else"
  | except_ => "except"
  | finally_ => "finally"
  | for_ => "for"
  | from_ => "from"
  | global_ => "global"
  | if_ => "if"
  | import_ => "import"
  | in_ => "in"
  | is_ => "is"
  | lambda_ => "lambda"
  | nonlocal_ => "nonlocal"
  | not_ => "not"
  | or_ => "or"
  | pass_ => "pass"
  | raise_ => "raise"
  | return_ => "return"
  | try_ => "try"
  | while_ => "while"
  | with_ => "with"
  | yield_ => "yield"

/-- Every keyword, in alphabetical order. -/
def all : List Keyword :=
  [false_, none_, true_, and_, as_, assert_, async_, await_, break_, class_, continue_, def_,
    del_, elif_, else_, except_, finally_, for_, from_, global_, if_, import_, in_, is_,
    lambda_, nonlocal_, not_, or_, pass_, raise_, return_, try_, while_, with_, yield_]

/-- The keyword written so, if there is one. -/
def ofText? (word : String) : Option Keyword :=
  all.find? (·.text == word)

end Keyword

/-- The three kinds of bracket. -/
inductive Bracket where
  | round | square | curly
deriving DecidableEq, Repr

/-- The character that opens a bracket. -/
def Bracket.opener : Bracket → Char
  | .round => '('
  | .square => '['
  | .curly => '\x7b'

/-- The character that closes a bracket. -/
def Bracket.closer : Bracket → Char
  | .round => ')'
  | .square => ']'
  | .curly => '\x7d'

/-- Delimiters and operators. -/
inductive Symbol where
  | opening (bracket : Bracket)
  | closing (bracket : Bracket)
  | comma | colon | semicolon | dot | ellipsis | arrow | walrus | atSign | assign
  | plus | minus | star | slash | doubleSlash | percent | doubleStar
  | lShift | rShift | amp | pipe | caret | tilde
  | lt | gt | ltEq | gtEq | eqEq | notEq
  | augmented (op : BinOp)
deriving DecidableEq, Repr

namespace Symbol

/-- How a symbol is written. -/
def text : Symbol → String
  | opening b => String.singleton b.opener
  | closing b => String.singleton b.closer
  | comma => ","
  | colon => ":"
  | semicolon => ";"
  | dot => "."
  | ellipsis => "..."
  | arrow => "->"
  | walrus => ":="
  | atSign => "@"
  | assign => "="
  | plus => "+"
  | minus => "-"
  | star => "*"
  | slash => "/"
  | doubleSlash => "//"
  | percent => "%"
  | doubleStar => "**"
  | lShift => "<<"
  | rShift => ">>"
  | amp => "&"
  | pipe => "|"
  | caret => "^"
  | tilde => "~"
  | lt => "<"
  | gt => ">"
  | ltEq => "<="
  | gtEq => ">="
  | eqEq => "=="
  | notEq => "!="
  | augmented op => op.text ++ "="

end Symbol

/-- One token of the token stream. -/
inductive Token where
  | keyword (word : Keyword)
  | symbol (mark : Symbol)
  /-- A numeral as written, with its underscores, base mark and suffix. -/
  | number (text : String)
  /-- A string or bytes literal as written, with its quotes and the letters before them. -/
  | string (text : String)
  | name (text : String)
  /-- The end of a logical line. -/
  | newline
  | indent
  | dedent
deriving DecidableEq, Repr

namespace Token

/-- How a token is written; the layout marks are spelled out. -/
def text : Token → String
  | keyword k => k.text
  | symbol s => s.text
  | number t => t
  | string t => t
  | name t => t
  | newline => "NEWLINE"
  | indent => "INDENT"
  | dedent => "DEDENT"

end Token

/-- A token and the bytes it covers. -/
structure Lexeme where
  token : Token
  span : Span
deriving DecidableEq, Repr

end Scrutiny
