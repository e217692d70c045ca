/-
What the passes say of a text without a tree, and what holds of all verdicts.

Each pass looks for the tree on its own.  The logic pass and the advice pass go by the tree
alone; the syntax pass first sees whether the text is white space, and not all white space is
skipped when a tree is built, so a blank text may or may not have one.  `Answered` collects
what each pass answers then, whatever checks were added: no check runs on a text without a
tree, and one that runs can add warnings to the logic verdict and nothing else.

That the parts of a verdict are in step holds however it was recorded, so it also holds of
every verdict that a session keeps, and no history of calls can bring out another.
-/
import Scrutiny.Proofs.Check.Positions
import Scrutiny.Proofs.Report.Verdicts
import Scrutiny.Proofs.Session.Accounting

namespace Scrutiny

/-! ### The verdicts of the passes -/

theorem Context.ofSource_place (source : String) (line : Nat) (column : Option Nat) (window : Nat) :
    (ofSource source line column window).line = line ∧
      (ofSource source line column window).column = column := by
  unfold ofSource
  dsimp only
  split <;> exact ⟨rfl, rfl⟩

namespace Checks

variable (checks : Checks) (config : Config) (source : String)

/-- A text without a tree has one error, at the place where it fails. -/
theorem syntaxVerdict_error (failure : SyntaxFailure) :
    ∃ text context, context.line = failure.position.line ∧
      context.column = some failure.position.column ∧
      checks.syntaxVerdict config source (.error failure) =
        ⟨false, [text], [], [failure.position.line], [], [context]⟩ := by
  obtain ⟨hline, hcolumn⟩ := Context.ofSource_place source failure.position.line
    (some failure.position.column) config.contextLines
  have hrecord := Verdict.record_of_context rfl
    (Failure.finding_context source failure config.contextLines)
  refine ⟨(Failure.finding source failure config.contextLines).text, _, hline, hcolumn,
    hrecord.trans ?_⟩
  rw [Verdict.addErrorAt, hline]
  rfl

theorem logicVerdict_error (failure : SyntaxFailure) :
    checks.logicVerdict config source (.error failure) =
      ⟨false, [illogical.text], [], [], [], []⟩ := by
  have hcontext : illogical.diagnostic.context = none := by
    simp [illogical, Finding.error, Diagnostic.ofMessage]
  show illogical.record .empty = _
  simp only [Finding.record, hcontext]
  rfl

/-- On a text with a tree the logic pass warns, and that is all. -/
theorem logicVerdict_ok (tree : Tree) : checks.logicVerdict config source (.ok tree) =
      ⟨true, [], checks.logicWarnings ⟨source, tree, config⟩, [], [], []⟩ :=
  Verdict.foldl_addWarning _ .empty

theorem blankVerdict_consistent : blankVerdict.Consistent :=
  ⟨by decide, rfl⟩

/-- The parts of a syntax verdict are in step, whatever the checks found. -/
theorem syntaxVerdict_consistent (outcome : TreeOutcome) :
    (checks.syntaxVerdict config source outcome).Consistent := by
  cases outcome with
  | error failure => exact Verdict.consistent_ofFindings _
  | ok tree => exact Verdict.consistent_ofFindings _

theorem logicVerdict_consistent (outcome : TreeOutcome) :
    (checks.logicVerdict config source outcome).Consistent := by
  cases outcome with
  | error failure => exact Verdict.consistent_ofFindings _
  | ok tree => exact Verdict.consistent_warnings _

end Checks

/-! ### Verdicts that are kept -/

namespace Session

/-- Every verdict that a session keeps has its parts in step. -/
def KeepsConsistent (session : Session) : Prop :=
  session.verdicts.Holds fun _ verdict => verdict.Consistent

variable {session : Session}

theorem work_consistent (session : Session) (pass : Pass) (source : String) :
    (session.work pass source).1.Consistent := by
  cases pass with
  | syntactic =>
    rw [work]
    split
    · exact Checks.blankVerdict_consistent
    · exact Checks.syntaxVerdict_consistent ..
  | logical => exact Checks.logicVerdict_consistent ..

theorem work_verdicts (session : Session) (pass : Pass) (source : String) :
    (session.work pass source).2.verdicts = session.verdicts := by
  cases pass with
  | syntactic =>
    rw [work]
    split <;> rfl
  | logical => rfl

/-- A verdict was kept or is worked out, and is in step either way. -/
theorem KeepsConsistent.verdict (h : session.KeepsConsistent) (pass : Pass) (source : String) :
    (session.verdict pass source).1.Consistent ∧
      (session.verdict pass source).2.KeepsConsistent := by
  have hlooked := h.get ⟨Digest.ofText source, pass⟩
  cases hfind : session.verdicts.find? ⟨Digest.ofText source, pass⟩ with
  | some kept =>
    rw [Cache.get_of_found hfind] at hlooked
    simp only [Session.verdict, Cache.get_of_found hfind]
    exact ⟨h.of_find? hfind, hlooked⟩
  | none =>
    rw [Cache.get_of_absent hfind] at hlooked
    simp only [Session.verdict, Cache.get_of_absent hfind]
    have hworked := work_consistent { session with verdicts := session.verdicts.missed } pass source
    refine ⟨hworked, ?_⟩
    show Cache.Holds _ (Cache.insert _ _ _)
    rw [work_verdicts]
    exact hlooked.insert hworked

theorem KeepsConsistent.respond (h : session.KeepsConsistent) (call : Call) :
    (session.respond call).2.KeepsConsistent := by
  cases call with
  | verdict pass source => exact (h.verdict pass source).2
  | advise source => exact h
  | clear => exact Cache.holds_clear _

theorem KeepsConsistent.after (calls : List Call) :
    ∀ {session : Session}, session.KeepsConsistent → (session.after calls).KeepsConsistent := by
  induction calls with
  | nil => exact fun h => h
  | cons call calls ih => exact fun h => ih (h.respond call)

/-! ### Texts without a tree -/

/-- What a session answers about a text, by whether it has a tree. -/
structure Answered (opened : Session) (source : String) : Prop where
  /-- The logic pass reports an error just when there is no tree. -/
  logicError : (opened.verdict .logical source).1.errors ≠ [] ↔
    ∃ failure, buildTree source = .error failure
  /-- It is one error then, at no place, and nothing else. -/
  logicFailing : ∀ failure, buildTree source = .error failure →
    ∃ text, (opened.verdict .logical source).1 = ⟨false, [text], [], [], [], []⟩
  /-- White space alone is one error of the syntax pass, at no place, with or without a tree. -/
  syntaxBlank : isBlankText source.toList = true →
    (opened.verdict .syntactic source).1 = ⟨false, ["Empty code provided"], [], [], [], []⟩
  /-- Any other text without a tree is one error, where it fails. -/
  syntaxFailing : isBlankText source.toList = false →
    ∀ failure, buildTree source = .error failure →
      ∃ text context, context.line = failure.position.line ∧
        context.column = some failure.position.column ∧
        (opened.verdict .syntactic source).1 =
          ⟨false, [text], [], [failure.position.line], [], [context]⟩
  /-- The advice on a text without a tree is to mend it first. -/
  adviceFailing : ∀ failure, buildTree source = .error failure →
    (opened.advise source).1 = ["Fix syntax errors before requesting improvements"]

theorem answered_fresh (config : Config) (checks : Checks) (source : String) :
    Answered (fresh config checks) source := by
  have hlogic : ((fresh config checks).verdict .logical source).1 =
      checks.logicVerdict config source (buildTree source) := verdict_fresh ..
  have hform := verdict_fresh config checks .syntactic source
  refine ⟨?_, ?_, ?_, ?_, ?_⟩
  · rw [hlogic]
    cases hbuild : buildTree source with
    | error failure =>
      rw [Checks.logicVerdict_error]
      exact iff_of_true (List.cons_ne_nil _ _) ⟨failure, rfl⟩
    | ok tree =>
      rw [Checks.logicVerdict_ok]
      exact iff_of_false (fun hne => hne rfl) fun ⟨failure, hfails⟩ => nomatch hfails
  · intro failure hbuild
    rw [hlogic, hbuild]
    exact ⟨_, Checks.logicVerdict_error checks config source failure⟩
  · intro hblank
    rw [hform, verdictOn, if_pos hblank]
    rfl
  · intro hblank failure hbuild
    rw [hform, verdictOn, hblank, hbuild]
    exact checks.syntaxVerdict_error config source failure
  · intro failure hbuild
    have hadvice : ((fresh config checks).advise source).1 =
        checks.advice config source (buildTree source) :=
      Answer.advice.inj (respond_fresh config checks (.advise source))
    rw [hadvice, hbuild]
    rfl

/--
**The passes agree on which texts have a tree, and their verdicts are in step.**  In a
session with any configuration that opens and any checks, whatever these find and however
they fail: each pass answers a text without a tree in its one way, and whatever was asked
before, a verdict is valid just when it has no error, and its lines are those of its
contexts.
-/
theorem passes_agree {config : Config} {checks : Checks} {opened : Session}
    (hopen : Session.open? config checks = .ok opened) (source : String) : Answered opened source ∧
      ∀ (calls : List Call) (pass : Pass),
        (((opened.after calls).verdict pass source).1.isValid = true ↔
          ((opened.after calls).verdict pass source).1.errors = []) ∧
        ((opened.after calls).verdict pass source).1.lineNumbers =
          ((opened.after calls).verdict pass source).1.contexts.map Context.line := by
  obtain rfl := eq_fresh_of_open? hopen
  refine ⟨answered_fresh config checks source, fun calls pass => ?_⟩
  have hstart : (fresh config checks).KeepsConsistent := Cache.holds_empty _
  obtain ⟨hvalid, hlines⟩ := ((hstart.after calls).verdict pass source).1
  exact ⟨hvalid, hlines⟩

/-- With checks that break down, give up and raise errors, on a text that has a tree after
one that has none. -/
theorem passes_agree_broken_checks :
    let broken : Check := ⟨"broken", fun _ => true, fun _ => .error .crashed⟩
    let stuck : Check := ⟨"stuck", fun _ => true, fun _ => .error .failed⟩
    let raising : Check := .ofFindings "raising" fun _ => [.error (.ofMessage "no")]
    let checks := ((Checks.standard.addSyntax broken).addSyntax raising).addLogic raising
      |>.addLogic stuck
    let opened := fresh Config.default checks
    Session.open? Config.default checks = .ok opened ∧
      Answered opened "x = 1" ∧ (opened.verdict .logical "x = 1").1.errors = [] ∧
      (opened.verdict .syntactic "x = 1").1.errors = ["no"] ∧
      ((((opened.after [.verdict .syntactic "x = ("]).verdict .syntactic "x = 1").1.isValid = true ↔
        ((opened.after [.verdict .syntactic "x = ("]).verdict .syntactic "x = 1").1.errors =
          [])) := by
  intro broken stuck raising checks opened
  obtain ⟨hanswered, hconsistent⟩ :=
    passes_agree (rfl : open? Config.default checks = .ok opened) "x = 1"
  refine ⟨rfl, hanswered, ?_, ?_, (hconsistent [.verdict .syntactic "x = ("] .syntactic).1⟩
  · rw [verdict_fresh]
    decide +kernel
  · rw [verdict_fresh]
    decide +kernel

end Session

end Scrutiny
