/-
Advice on what an attacker could use.
-/
import Scrutiny.Check.Basic
import Scrutiny.Text.Pattern

namespace Scrutiny.Exposure

open Pattern

/-- A letter in any case; the long s counts as an s. -/
def letter (c : Char) : Pattern :=
  one fun d => d.toLower == c || (c == 's' && d == 'ſ')

/-- A word in any case. -/
def anyCase (text : String) : Pattern := concat (text.toList.map letter)

/-- A password with a value written in quotes. -/
def hardcodedPassword : Pattern :=
  concat [anyCase "password", blanks, literal "=", blanks, quote,
    some1 (fun c => c != '"' && c != '\''), quote]

/-- Advise on security. -/
def check : Check := .ofFindings "security" fun subject =>
  let text := subject.chars
  let passwords :=
    if hardcodedPassword.isIn text then
      ["Avoid hardcoding passwords - use environment variables or config files"]
    else []
  let queries :=
    if occursIn "sql" (text.map Char.toLower) && occursIn "%s" text then
      ["Use parameterized queries to prevent SQL injection"]
    else []
  let paths :=
    if occursIn "../" text || occursIn "..\\" text then
      ["Validate file paths to prevent directory traversal attacks"]
    else []
  (passwords ++ queries ++ paths).map .suggestion

end Scrutiny.Exposure
