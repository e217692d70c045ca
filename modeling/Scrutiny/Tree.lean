/-
Syntax trees of texts.

A text has a tree, with what the checks need to know about its lines, or it fails
at a position.  A failure at the end of the text is moved back to the last line
that has anything on it.
-/
import Scrutiny.Grammar.Module

namespace Scrutiny

/-- Why and where a text has no tree. -/
structure SyntaxFailure where
  message : String
  position : Position
deriving DecidableEq, Repr

/-- A failure in one line of text. -/
def SyntaxFailure.text (failure : SyntaxFailure) : String :=
  let ⟨line, column⟩ := failure.position
  s!"{failure.message} (line {line}, column {column})"

/-- The tree of a text and the layout of its lines. -/
structure Tree where
  module : Module
  lines : LineTable
  logicalLines : List LogicalLine

/-- The line a byte offset falls on. -/
def Tree.lineOf (tree : Tree) (offset : Nat) : Nat :=
  tree.lines.line offset

/-- Report an error at the position its span starts at, but not after the last
character that is not white space. -/
def SyntaxFailure.ofError (cs : List Char) (table : LineTable) (error : SyntaxError) :
    SyntaxFailure :=
  let offset := min error.span.start (byteLength (trimEnd cs))
  ⟨error.fault.message, table.position cs offset⟩

/-- The tree of a text. -/
def buildTree (source : String) : Except SyntaxFailure Tree :=
  let cs := source.toList
  let table := LineTable.ofText cs
  match tokenize source with
  | .error errors =>
    .error (.ofError cs table (SyntaxErrors.ofTokenErrors errors).first)
  | .ok stream =>
    match parseTokens stream.tokens table.size with
    | .error error => .error (.ofError cs table error)
    | .ok module => .ok ⟨module, table, stream.lines⟩

end Scrutiny
