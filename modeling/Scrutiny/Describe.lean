/-
Values shown in one line, by the names and fields a log would show them with.
-/
import Scrutiny.Session

namespace Scrutiny

/-- A record with the given name and fields; `rest` says that some are left out. -/
def describeRecord (name : String) (fields : List (String × String)) (rest : Bool) : String :=
  let shown := fields.map (fun (field, value) => field ++ ": " ++ value) ++
    if rest then [".."] else []
  name ++ " \x7b " ++ ", ".intercalate shown ++ " \x7d"

/-- A level shown in one line. -/
def Level.describe : Level → String
  | strict => "Strict"
  | normal => "Normal"
  | lenient => "Lenient"

/-- A pass shown in one line. -/
def Pass.describe : Pass → String
  | syntactic => "Syntax"
  | logical => "Logic"

/-- A digest shown in one line, shortened. -/
def Digest.describe (digest : Digest) : String :=
  "ContentHash(" ++ digest.shortText ++ "…)"

/-- A key shown in one line. -/
def VerdictKey.describe (key : VerdictKey) : String :=
  describeRecord "CacheKey" [("hash", key.digest.describe), ("kind", key.pass.describe)] false

/-- A cache shown in one line, by its capacity. -/
def Cache.describe {κ ν : Type} [DecidableEq κ] [Hashable κ] (cache : Cache κ ν) : String :=
  describeRecord "BoundedCache" [("capacity", toString cache.capacity)] true

/-- A configuration shown in one line. -/
def Config.describe (config : Config) : String :=
  describeRecord "ValidatorConfig"
    [("validation_level", config.level.describe),
      ("check_imports", toString config.checkImports),
      ("check_undefined_vars", toString config.checkUndefined),
      ("allow_unsafe_operations", toString config.allowUnsafe),
      ("indent_size", toString config.indentSize),
      ("max_line_length", toString config.maxLineLength),
      ("cache_capacity", toString config.cacheCapacity),
      ("context_lines", toString config.contextLines)]
    false

/-- A session shown in one line: its configuration and how many checks it has. -/
def Session.describe (session : Session) : String :=
  let checks := session.checks
  describeRecord "Validator"
    [("config", session.config.describe),
      ("syntax_detectors", toString checks.syntaxChecks.length),
      ("logic_detectors", toString (checks.logicChecks.length + checks.runtimeChecks.length)),
      ("suggestion_detectors", toString checks.adviceChecks.length)]
    true

end Scrutiny
