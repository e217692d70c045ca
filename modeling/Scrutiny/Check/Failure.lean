/-
What to report of a text that has no tree.
-/
import Scrutiny.Report.Verdict
import Scrutiny.Text.Pattern
import Scrutiny.Tree

namespace Scrutiny.Failure

/-- What messages say when a look at the line may tell what is missing. -/
def structuralPhrases : List String :=
  ["invalid syntax", "never closed", "unmatched", "does not match opening", "unterminated"]

/-- Words that open a block. -/
def blockWords : List String :=
  ["if", "elif", "else", "for", "while", "def", "class", "try", "except", "with"]

/-- The words of a text: its longest runs of alphanumeric characters and underscores. -/
def words (cs : List Char) : List (List Char) :=
  cs.splitOnP fun c => !(isAlphanumeric c || c == '_')

/-- Whether two characters occur differently often. -/
def unbalanced (cs : List Char) (opening closing : Char) : Bool :=
  cs.count opening != cs.count closing

/-- Nothing in particular seems to be missing. -/
def generalAdvice : String := "Check for missing colons, parentheses, or quotes"

/-- What a line seems to lack, its comment left out. -/
def lineAdvice (line : List Char) : String :=
  let code := line.takeWhile (· != '#')
  if (words code).any (fun word => blockWords.contains (String.ofList word)) &&
      !code.contains ':' then
    "Missing colon (:) at end of statement"
  else if unbalanced code '(' ')' then "Mismatched parentheses"
  else if unbalanced code '[' ']' then "Mismatched square brackets"
  else if unbalanced code '\x7b' '\x7d' then "Mismatched curly braces"
  else if code.count '"' % 2 != 0 || code.count '\'' % 2 != 0 then "Unclosed string literal"
  else generalAdvice

/-- What the line with the given number seems to lack. -/
def adviceFor (source : String) (line : Nat) : String :=
  if line = 0 then generalAdvice
  else
    match (splitLines source.toList)[line - 1]? with
    | some text => lineAdvice text
    | none => generalAdvice

/-- How to mend a failure with the given message on a line. -/
def suggestions (source message : String) (line : Nat) : List String :=
  let message := message.toList.map Char.toLower
  (if structuralPhrases.any (occursIn · message) then [adviceFor source line] else []) ++
    (if occursIn "unexpected indent" message || occursIn "unindent does not match" message then
      ["Check indentation consistency", "Ensure all blocks are properly aligned"]
    else []) ++
    (if occursIn "expected an indented block" message then
      ["Add indented code after the colon (:)", "Use 'pass' if the block should be empty"]
    else [])

/-- The one finding about a text that has no tree. -/
def finding (source : String) (failure : SyntaxFailure) (window : Nat) : Finding :=
  let ⟨line, column⟩ := failure.position
  let diagnostic := (Diagnostic.ofMessage s!"Syntax error: {failure.message}").pointingAt
    (.ofSource source line (some column) window)
  (Finding.error
    (diagnostic.suggestAll (suggestions source failure.message line))).withContext

end Scrutiny.Failure
