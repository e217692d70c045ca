/-
Parsing a whole text.

A text is wrong in one of three ways, looked for in this order: it has no token
stream, its tokens fit no module of the grammar, or something is assigned to that
cannot be.  A text that does not fit the grammar is wrong at the furthest token any
attempt at reading it got to.
-/
import Scrutiny.Grammar.Stmt
import Scrutiny.Syntax.Target

namespace Scrutiny

/-- How tokens can fail to fit the grammar. -/
inductive GrammarFault where
  | unexpectedIndent
  /-- A line that ends in a colon has no block. -/
  | missingBlock
  | invalid
deriving DecidableEq, Repr

/-- The wording of a fault. -/
def GrammarFault.message : GrammarFault → String
  | unexpectedIndent => "unexpected indent"
  | missingBlock => "expected an indented block"
  | invalid => "invalid syntax"

/-- Why a text is not a module. -/
inductive SyntaxFault where
  | token (fault : TokenFault)
  | grammar (fault : GrammarFault)
  | target (fault : TargetFault)
deriving DecidableEq, Repr

/-- The wording of a fault. -/
def SyntaxFault.message : SyntaxFault → String
  | token fault => fault.message
  | grammar fault => fault.message
  | target fault => fault.message

/-- A fault and where it shows.  At the end of the text the span starts after the
last token stops, and so may start after it ends. -/
structure SyntaxError where
  fault : SyntaxFault
  span : Span
deriving DecidableEq, Repr

/-- The errors of a text that has any. -/
structure SyntaxErrors where
  first : SyntaxError
  more : List SyntaxError
deriving DecidableEq, Repr

/-- All errors as a list. -/
def SyntaxErrors.toList (errors : SyntaxErrors) : List SyntaxError :=
  errors.first :: errors.more

/-- The faults of a text without a token stream, as errors of its syntax. -/
def SyntaxErrors.ofTokenErrors (errors : TokenErrors) : SyntaxErrors :=
  let lift (e : TokenError) : SyntaxError := ⟨.token e.fault, e.span⟩
  ⟨lift errors.first, errors.more.map lift⟩

namespace Grammar

/-- Whether some tokens end in a colon and the end of its line. -/
def endsInColonLine (tokens : List Lexeme) : Bool :=
  match tokens.reverse with
  | newline :: colon :: _ => newline.token == .newline && colon.token == .symbol .colon
  | _ => false

/-- What is wrong at a token, or at the end if there is none.  Of several equal
marks at one place the first counts. -/
def faultAt (tokens : List Lexeme) (found : Option Lexeme) : GrammarFault :=
  match found with
  | some lexeme =>
    if lexeme.token = .indent then .unexpectedIndent
    else
      let before := tokens.takeWhile fun other =>
        !(other.span.start == lexeme.span.start && other.token == lexeme.token)
      if endsInColonLine before then .missingBlock else .invalid
  | none => if endsInColonLine tokens then .missingBlock else .invalid

/-- The error at the token of index `far` of a text of `size` bytes. -/
def errorAt (tokens : List Lexeme) (size far : Nat) : SyntaxError :=
  let found := tokens[far]?
  let span := match found with
    | some lexeme => lexeme.span
    | none => ⟨size, (tokens.getLast?.map (·.span.stop)).getD size⟩
  ⟨.grammar (faultAt tokens found), span⟩

end Grammar

/-- Read a module from the tokens of a text of `size` bytes. -/
def parseTokens (tokens : List Lexeme) (size : Nat) : Except SyntaxError Module :=
  let reply := Grammar.moduleUpTo tokens.length (Cursor.start tokens)
  match reply.result with
  | none => .error (Grammar.errorAt tokens size reply.far)
  | some (module, _) =>
    match module.targetFault? with
    | some (fault, span) => .error ⟨.target fault, span⟩
    | none => .ok module

/-- Read a module from a text. -/
def parse (source : String) : Except SyntaxErrors Module :=
  match tokenize source with
  | .error errors => .error (.ofTokenErrors errors)
  | .ok stream =>
    match parseTokens stream.tokens (byteLength source.toList) with
    | .error error => .error ⟨error, []⟩
    | .ok module => .ok module

end Scrutiny
