/-
Operations that can do harm: evaluating text as code, starting other programs,
writing and removing files.

The text is searched as it is, so an operation named inside a string or a comment
counts.
-/
import Scrutiny.Check.Basic
import Scrutiny.Text.Pattern

namespace Scrutiny.Hazards

open Pattern

/-- A word that begins here and is called. -/
def callOf (text : String) : Pattern :=
  concat [wordAt text, blanks, literal "("]

/-- A call of `open` with a mode that writes. -/
def openForWriting : Pattern :=
  concat [callOf "open", many (· != ')'), literal ",", blanks,
    option (concat [literal "mode", blanks, literal "=", blanks]),
    quote, one (['w', 'a', 'x'].contains ·), option (literal "b"), option (literal "+"), quote]

/-- What to look for, and what to do instead. -/
def table : List (Pattern × List String) := [
  (callOf "eval",
    ["Use ast.literal_eval() for safe evaluation",
      "Consider parsing data instead of evaluating code"]),
  (callOf "exec", ["Avoid dynamic code execution", "Use functions or classes instead"]),
  (callOf "__import__", []),
  (callOf "compile", []),
  (openForWriting,
    ["Validate file paths before writing", "Use context managers (with statement)"]),
  (seq (wordAt "os.") (anyOf ["system", "popen", "exec"]), []),
  (seq (wordAt "subprocess.") (anyOf ["run", "call", "Popen"]), []),
  (wordAt "shutil.rmtree", []),
  (wordAt "os.remove", [])]

/-- Report every unsafe operation. -/
def check : Check :=
  (Check.ofFindings "unsafe-operations" fun subject =>
    table.flatMap fun (pattern, hints) =>
      (pattern.matchesIn subject.chars).map fun (offset, text) =>
        .error ((subject.diagnosticAt (subject.lineOf offset)
          s!"Unsafe operation detected: {text}").suggestAll hints)).when
    (!·.allowUnsafe)

end Scrutiny.Hazards
