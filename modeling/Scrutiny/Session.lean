/-
Sessions: one configuration, its checks, and what is remembered between texts.

The verdicts of the syntax and the logic pass are kept by the digest of the text and
the pass, trees by the digest alone.  Nothing that is remembered changes an answer.
-/
import Scrutiny.Passes

namespace Scrutiny

/-- A pass whose verdicts are kept. -/
inductive Pass where
  | syntactic
  | logical
deriving DecidableEq, Hashable, Repr

/-- How a pass is written. -/
def Pass.text : Pass → String
  | syntactic => "syntax"
  | logical => "logic"

/-- What a verdict is kept under. -/
structure VerdictKey where
  digest : Digest
  pass : Pass
deriving DecidableEq, Hashable, Repr

/-- A configuration, its checks, and what is remembered. -/
structure Session where
  config : Config
  checks : Checks
  trees : TreeCache
  verdicts : Cache VerdictKey Verdict

/-- The statistics of both caches. -/
structure SessionStats where
  verdicts : CacheStats
  trees : CacheStats
deriving DecidableEq, Repr

namespace Session

/-- A session that remembers nothing yet. -/
def fresh (config : Config) (checks : Checks) : Session :=
  ⟨config, checks, .empty config.cacheCapacity, .empty config.cacheCapacity⟩

/-- A session, unless a limit of its configuration is out of range. -/
def open? (config : Config) (checks : Checks) : Except Config.Fault Session :=
  match config.fault? with
  | some fault => .error fault
  | none => .ok (fresh config checks)

/-- The tree of a text. -/
def parse (session : Session) (source : String) : TreeOutcome × Session :=
  let (outcome, trees) := session.trees.parse source
  (outcome, { session with trees })

/-- Work a verdict out.  A text of white space alone is not looked at further by the
syntax pass. -/
def work (session : Session) : Pass → String → Verdict × Session
  | .syntactic, source =>
    if isBlankText source.toList then (Checks.blankVerdict, session)
    else
      let (outcome, session) := session.parse source
      (session.checks.syntaxVerdict session.config source outcome, session)
  | .logical, source =>
    let (outcome, session) := session.parse source
    (session.checks.logicVerdict session.config source outcome, session)

/-- The verdict of a pass on a text, remembered or else worked out and kept. -/
def verdict (session : Session) (pass : Pass) (source : String) : Verdict × Session :=
  let key : VerdictKey := ⟨Digest.ofText source, pass⟩
  match session.verdicts.get key with
  | (some verdict, verdicts) => (verdict, { session with verdicts })
  | (none, verdicts) =>
    let (verdict, session) := { session with verdicts }.work pass source
    (verdict, { session with verdicts := session.verdicts.insert key verdict })

/-- The advice on a text. -/
def advise (session : Session) (source : String) : List String × Session :=
  let (outcome, session) := session.parse source
  (session.checks.advice session.config source outcome, session)

/-- Forget every verdict and tree. -/
def clear (session : Session) : Session :=
  { session with trees := session.trees.clear, verdicts := session.verdicts.clear }

/-- The statistics of both caches. -/
def stats (session : Session) : SessionStats :=
  ⟨session.verdicts.stats, session.trees.stats⟩

end Session

end Scrutiny
