/-
Parsers over a token stream.

A parser starts at a cursor and replies with a value and the cursor after it, or
with nothing.  Choice is ordered: the second alternative is tried, from the same
place, only if the first gives nothing.

Beside its result every reply tells how far any attempt inside it got: the index
of the furthest token that something else was expected in place of.  Abandoned
alternatives count, and so do optional parts of what succeeded.  That index is
where a text that does not parse is reported to be wrong.
-/
import Scrutiny.Token.Layout

namespace Scrutiny

/-- A place in a token stream. -/
structure Cursor where
  /-- The tokens still to read. -/
  rest : List Lexeme
  /-- How many tokens have been read. -/
  index : Nat
  /-- Where the last token read stops. -/
  edge : Nat
deriving Repr

/-- Before the first token. -/
def Cursor.start (tokens : List Lexeme) : Cursor := ⟨tokens, 0, 0⟩

/-- Where the next token starts. -/
def Cursor.here (c : Cursor) : Nat :=
  match c.rest with
  | lexeme :: _ => lexeme.span.start
  | [] => c.edge

/-- What a parser answers. -/
structure Reply (α : Type) where
  /-- The index of the furthest token that was not what some attempt expected. -/
  far : Nat
  /-- The value read and the place after it. -/
  result : Option (α × Cursor)

/-- A parser for values of type `α`. -/
def Parser (α : Type) : Type := Cursor → Reply α

namespace Parser

variable {α β : Type}

/-! ### Composition -/

/-- Read nothing. -/
protected def pure (a : α) : Parser α := fun c => ⟨0, some (a, c)⟩

/-- Read one thing, then another that may depend on it. -/
protected def bind (p : Parser α) (f : α → Parser β) : Parser β := fun c =>
  match p c with
  | ⟨far, none⟩ => ⟨far, none⟩
  | ⟨far, some (a, next)⟩ =>
    let reply := f a next
    ⟨max far reply.far, reply.result⟩

instance : Monad Parser where
  pure := Parser.pure
  bind := Parser.bind

/-- The second parser is tried if the first reads nothing. -/
protected def orElse (p q : Parser α) : Parser α := fun c =>
  match p c with
  | ⟨far, none⟩ =>
    let reply := q c
    ⟨max far reply.far, reply.result⟩
  | reply => reply

instance : OrElse (Parser α) where
  orElse p q := p.orElse (q ())

/-- Never reads anything. -/
def fail : Parser α := fun _ => ⟨0, none⟩

/-! ### Tokens -/

/-- Read one token that `pick` accepts. -/
def satisfy (pick : Token → Option α) : Parser α := fun c =>
  match c.rest with
  | [] => ⟨c.index, none⟩
  | lexeme :: rest =>
    match pick lexeme.token with
    | none => ⟨c.index, none⟩
    | some a => ⟨0, some (a, ⟨rest, c.index + 1, lexeme.span.stop⟩)⟩

/-- Read exactly this token. -/
def token (t : Token) : Parser Unit :=
  satisfy fun other => if other = t then some () else none

/-- Read a keyword. -/
def keyword (k : Keyword) : Parser Unit := token (.keyword k)

/-- Read a symbol. -/
def symbol (s : Symbol) : Parser Unit := token (.symbol s)

/-- Read a name. -/
def name : Parser String :=
  satisfy fun
    | .name text => some text
    | _ => none

/-- Read a name that is reserved only here. -/
def word (text : String) : Parser Unit := token (.name text)

/-- Nothing is left to read. -/
def eof : Parser Unit := fun c =>
  match c.rest with
  | [] => ⟨0, some ((), c)⟩
  | _ :: _ => ⟨c.index, none⟩

/-! ### Places -/

/-- Read something and give it the span from its first token to its last. -/
def node (p : Parser (Span → α)) : Parser α := fun c =>
  match p c with
  | ⟨far, none⟩ => ⟨far, none⟩
  | ⟨far, some (build, next)⟩ => ⟨far, some (build ⟨c.here, next.edge⟩, next)⟩

/-- The span of what a parser reads. -/
def spanOf (p : Parser Unit) : Parser Span :=
  node (do p; return id)

/-- Check what follows without reading it. -/
def ahead (p : Parser α) : Parser α := fun c =>
  match p c with
  | ⟨far, none⟩ => ⟨far, none⟩
  | ⟨far, some (a, _)⟩ => ⟨far, some (a, c)⟩

/-! ### Repetition -/

/-- Read as many as there are, at most one more than `bound` is long. -/
def manyWithin (p : Parser α) : List Lexeme → Parser (List α)
  | bound, c =>
    match p c with
    | ⟨far, none⟩ => ⟨far, some ([], c)⟩
    | ⟨far, some (a, next)⟩ =>
      match bound with
      | [] => ⟨far, some ([a], next)⟩
      | _ :: bound =>
        let reply := manyWithin p bound next
        ⟨max far reply.far, reply.result.map fun (as, last) => (a :: as, last)⟩

/-- Read as many as there are.  Each reads a token, so there can be no more than
there are tokens left. -/
def many (p : Parser α) : Parser (List α) := fun c => manyWithin p c.rest c

/-- Read as many as there are, but at least one. -/
def many1 (p : Parser α) : Parser (List α) := do
  let a ← p
  let as ← many p
  return a :: as

/-- Read something if it is there. -/
def opt (p : Parser α) : Parser (Option α) :=
  (do return some (← p)) <|> return none

/-- One or more with separators between; a separator with nothing after it is
left unread. -/
def sepBy1 (p : Parser α) (sep : Parser Unit) : Parser (List α) := do
  let a ← p
  let as ← many (do sep; p)
  return a :: as

/-- One or more with separators between, and maybe one at the end. -/
def sepEndBy1 (p : Parser α) (sep : Parser Unit) : Parser (List α) := do
  let as ← sepBy1 p sep
  let _ ← opt sep
  return as

/-- Any number with separators between, and maybe one at the end. -/
def sepEndBy (p : Parser α) (sep : Parser Unit) : Parser (List α) :=
  sepEndBy1 p sep <|> return []

/-- Read something between brackets. -/
def bracketed (b : Bracket) (p : Parser α) : Parser α := do
  symbol (.opening b)
  let a ← p
  symbol (.closing b)
  return a

end Parser

end Scrutiny
