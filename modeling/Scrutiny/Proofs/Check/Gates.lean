/-
Switching a check off takes away its findings and nothing else.

A configuration has four gates: three switches and the level.  Each check is given the whole
configuration, but reads no gate; the gates only decide which checks run.  So if one gate is
relaxed, the checks that still run find what they found before, and the verdict is what it
was without the findings of the check that is off, which stood together in one place.
-/
import Scrutiny.Proofs.Check.Positions
import Scrutiny.Proofs.Report.Verdicts
import Scrutiny.Proofs.Session.Transparency

namespace Scrutiny

variable {check : Check} {pass : Pass}

/-! ### Gates -/

/-- What a configuration can switch checks off by. -/
inductive Gate where
  | unsafeOperations
  | imports
  | undefinedNames
  | level
deriving DecidableEq, Repr

/-- How much a level asks for. -/
def Level.rank : Level → Nat
  | lenient => 0
  | normal => 1
  | strict => 2

/-- How much a configuration asks for at a gate. -/
def Gate.strictness : Gate → Config → Nat
  | unsafeOperations, config => (!config.allowUnsafe).toNat
  | imports, config => config.checkImports.toNat
  | undefinedNames, config => config.checkUndefined.toNat
  | level, config => config.level.rank

/-- Two configurations with the same limits for the checks. -/
structure Config.SameLimits (eased full : Config) : Prop where
  indentSize : eased.indentSize = full.indentSize
  maxLineLength : eased.maxLineLength = full.maxLineLength
  contextLines : eased.contextLines = full.contextLines

/-- One configuration asks for less than another at one gate, and for the same at all
others. -/
structure Gate.Relaxes (gate : Gate) (eased full : Config) : Prop where
  limits : eased.SameLimits full
  less : gate.strictness eased < gate.strictness full
  others : ∀ other, other ≠ gate → other.strictness eased = other.strictness full

/-- The check of a pass that is on in one configuration and off in the other, where the
other differs from it by a relaxed gate. -/
def Gate.switched? (gate : Gate) (eased full : Config) : Pass → Option Check
  | .syntactic =>
    match gate with
    | unsafeOperations => some Hazards.check
    | imports => some Imports.check
    | undefinedNames => some Undefined.check
    | level => if eased.level = .lenient then some Smells.check else none
  | .logical =>
    match gate with
    | level => if full.level = .strict then some Unused.check else none
    | _ => none

/-! ### No check reads a gate -/

theorem Checks.standard_findings_congr {eased full : Config} (h : eased.SameLimits full)
    (source : String) (tree : Tree)
    (hcheck : check ∈ Checks.standard.syntaxChecks ++ Checks.standard.logicChecks) :
    check.findings ⟨source, tree, eased⟩ = check.findings ⟨source, tree, full⟩ := by
  cases eased
  cases full
  obtain ⟨rfl, rfl, rfl⟩ := h
  simp only [Checks.standard, List.mem_append, List.mem_cons, List.not_mem_nil, or_false] at hcheck
  rcases hcheck with (rfl | rfl | rfl | rfl | rfl | rfl) | rfl | rfl | rfl | rfl | rfl <;> rfl

/-! ### Running fewer checks -/

section

variable {checks : List Check} {source : String} {tree : Tree} {eased full : Config}

theorem Check.runAll_append (first second : List Check) (subject : Subject) :
    runAll (first ++ second) subject = runAll first subject ++ runAll second subject := by
  rw [runAll, List.filter_append, List.flatMap_append]
  rfl

/-- Checks that run in both configurations and read no gate find the same. -/
theorem Check.runAll_congr (hsame : ∀ check ∈ checks, check.enabled eased = check.enabled full ∧
      check.findings ⟨source, tree, eased⟩ = check.findings ⟨source, tree, full⟩) :
    runAll checks ⟨source, tree, eased⟩ = runAll checks ⟨source, tree, full⟩ := by
  have hfilter : checks.filter (·.enabled eased) = checks.filter (·.enabled full) :=
    List.filter_congr fun check hcheck => (hsame check hcheck).1
  show (checks.filter (·.enabled eased)).flatMap _ = (checks.filter (·.enabled full)).flatMap _
  rw [hfilter]
  exact List.flatMap_congr fun check hcheck => (hsame check (List.mem_of_mem_filter hcheck)).2

/-- A check that runs in one of them only. -/
theorem Check.runAll_switched (hoff : check.enabled eased = false)
    (hon : check.enabled full = true) (source : String) (tree : Tree) :
    runAll [check] ⟨source, tree, eased⟩ = [] ∧
      runAll [check] ⟨source, tree, full⟩ = check.findings ⟨source, tree, full⟩ := by
  simp [runAll, hoff, hon]

end

/-! ### Which checks wait on which gate -/

/-- A check that runs where a configuration asks for at least so much at a gate. -/
def Check.WaitsOn (check : Check) (gate : Gate) (least : Nat) : Prop :=
  ∀ config, check.enabled config = decide (least ≤ gate.strictness config)

theorem Gate.one_le_toNat (b : Bool) : b = decide (1 ≤ b.toNat) := by
  cases b <;> rfl

theorem Hazards.check_waits : Hazards.check.WaitsOn .unsafeOperations 1 :=
  fun config => Gate.one_le_toNat (!config.allowUnsafe)

theorem Imports.check_waits : Imports.check.WaitsOn .imports 1 :=
  fun config => Gate.one_le_toNat config.checkImports

theorem Undefined.check_waits : Undefined.check.WaitsOn .undefinedNames 1 :=
  fun config => Gate.one_le_toNat config.checkUndefined

theorem Smells.check_waits : Smells.check.WaitsOn .level 1 := by
  intro config
  show config.level.scansCommonIssues = decide (1 ≤ config.level.rank)
  cases config.level <;> rfl

theorem Unused.check_waits : Unused.check.WaitsOn .level 2 := by
  intro config
  show config.level.isStrict = decide (2 ≤ config.level.rank)
  cases config.level <;> rfl

/-- The checks of a pass. -/
def Pass.checks : Pass → List Check
  | .syntactic => Checks.standard.syntaxChecks
  | .logical => Checks.standard.logicChecks

section

variable {gate : Gate} {eased full : Config} {check : Check} {least : Nat}

theorem Check.WaitsOn.enabled_eq {other : Gate} (hwaits : check.WaitsOn other least)
    (h : gate.Relaxes eased full) (hother : other ≠ gate) :
    check.enabled eased = check.enabled full := by
  rw [hwaits eased, hwaits full, h.others other hother]

/-- A check that the relaxed gate leaves on, or off. -/
theorem Check.WaitsOn.enabled_eq_of_iff (hwaits : check.WaitsOn gate least)
    (hiff : least ≤ gate.strictness eased ↔ least ≤ gate.strictness full) :
    check.enabled eased = check.enabled full := by
  rw [hwaits eased, hwaits full]
  exact decide_eq_decide.mpr hiff

theorem Check.WaitsOn.switched (hwaits : check.WaitsOn gate least)
    (hoff : gate.strictness eased < least) (hon : least ≤ gate.strictness full) :
    check.enabled eased = false ∧ check.enabled full = true := by
  rw [hwaits eased, hwaits full]
  exact ⟨decide_eq_false (Nat.not_le.mpr hoff), decide_eq_true hon⟩

variable (h : gate.Relaxes eased full)

include h

/-- A switch that is relaxed was on and is off. -/
theorem Gate.Relaxes.switch_off (hgate : gate ≠ .level) :
    gate.strictness eased < 1 ∧ 1 ≤ gate.strictness full := by
  have hless := h.less
  have hle : gate.strictness full ≤ 1 := by
    cases gate with
    | unsafeOperations => exact Bool.toNat_le _
    | imports => exact Bool.toNat_le _
    | undefinedNames => exact Bool.toNat_le _
    | level => exact absurd rfl hgate
  omega

/-- The check that a gate switches stands once among those of its pass, and the others
stay on or off. -/
theorem Gate.Relaxes.splits (hswitched : gate.switched? eased full pass = some check) :
    ∃ before after, pass.checks = before ++ [check] ++ after ∧
      (check.enabled eased = false ∧ check.enabled full = true) ∧
      ∀ other ∈ before ++ after, other.enabled eased = other.enabled full := by
  have hless := h.less
  cases pass with
  | syntactic =>
    cases gate with
    | unsafeOperations =>
      obtain rfl : Hazards.check = check := Option.some.inj hswitched
      obtain ⟨hoff, hon⟩ := h.switch_off (by decide)
      refine ⟨[Indentation.check, Undefined.check, Imports.check, Smells.check],
        [Characters.check], rfl, Hazards.check_waits.switched hoff hon, ?_⟩
      simp only [List.cons_append, List.nil_append, List.forall_mem_cons]
      exact ⟨rfl, Undefined.check_waits.enabled_eq h (by decide),
        Imports.check_waits.enabled_eq h (by decide),
        Smells.check_waits.enabled_eq h (by decide), rfl, List.forall_mem_nil _⟩
    | imports =>
      obtain rfl : Imports.check = check := Option.some.inj hswitched
      obtain ⟨hoff, hon⟩ := h.switch_off (by decide)
      refine ⟨[Indentation.check, Undefined.check],
        [Smells.check, Hazards.check, Characters.check], rfl,
        Imports.check_waits.switched hoff hon, ?_⟩
      simp only [List.cons_append, List.nil_append, List.forall_mem_cons]
      exact ⟨rfl, Undefined.check_waits.enabled_eq h (by decide),
        Smells.check_waits.enabled_eq h (by decide),
        Hazards.check_waits.enabled_eq h (by decide), rfl, List.forall_mem_nil _⟩
    | undefinedNames =>
      obtain rfl : Undefined.check = check := Option.some.inj hswitched
      obtain ⟨hoff, hon⟩ := h.switch_off (by decide)
      refine ⟨[Indentation.check],
        [Imports.check, Smells.check, Hazards.check, Characters.check], rfl,
        Undefined.check_waits.switched hoff hon, ?_⟩
      simp only [List.cons_append, List.nil_append, List.forall_mem_cons]
      exact ⟨rfl, Imports.check_waits.enabled_eq h (by decide),
        Smells.check_waits.enabled_eq h (by decide),
        Hazards.check_waits.enabled_eq h (by decide), rfl, List.forall_mem_nil _⟩
    | level =>
      obtain ⟨hlenient, hcheck⟩ := Option.ite_none_right_eq_some.mp hswitched
      obtain rfl : Smells.check = check := Option.some.inj hcheck
      have hoff : Gate.level.strictness eased < 1 := by
        show eased.level.rank < 1
        rw [hlenient]
        decide
      refine ⟨[Indentation.check, Undefined.check, Imports.check],
        [Hazards.check, Characters.check], rfl,
        Smells.check_waits.switched hoff (Nat.lt_of_le_of_lt (Nat.zero_le _) hless), ?_⟩
      simp only [List.cons_append, List.nil_append, List.forall_mem_cons]
      exact ⟨rfl, Undefined.check_waits.enabled_eq h (by decide),
        Imports.check_waits.enabled_eq h (by decide),
        Hazards.check_waits.enabled_eq h (by decide), rfl, List.forall_mem_nil _⟩
  | logical =>
    cases gate with
    | unsafeOperations => cases hswitched
    | imports => cases hswitched
    | undefinedNames => cases hswitched
    | level =>
      obtain ⟨hstrict, hcheck⟩ := Option.ite_none_right_eq_some.mp hswitched
      obtain rfl : Unused.check = check := Option.some.inj hcheck
      have hon : Gate.level.strictness full = 2 := by
        show full.level.rank = 2
        rw [hstrict]
        rfl
      rw [hon] at hless
      refine ⟨[Unreachable.check], [Endless.check, Returnless.check,
        .ofFindings "type-consistency" fun _ => []], rfl,
        Unused.check_waits.switched hless (Nat.le_of_eq hon.symm), ?_⟩
      simp only [List.cons_append, List.nil_append, List.forall_mem_cons]
      exact ⟨rfl, rfl, rfl, rfl, List.forall_mem_nil _⟩

/-- If a gate switches no check of a pass, then all of them stay on or off. -/
theorem Gate.Relaxes.unswitched (hswitched : gate.switched? eased full pass = none) :
    ∀ check ∈ pass.checks, check.enabled eased = check.enabled full := by
  have hless := h.less
  cases pass with
  | syntactic =>
    cases gate with
    | unsafeOperations => cases hswitched
    | imports => cases hswitched
    | undefinedNames => cases hswitched
    | level =>
      have hleast : 1 ≤ Gate.level.strictness eased := by
        show 1 ≤ eased.level.rank
        cases hlevel : eased.level with
        | lenient => simp [Gate.switched?, hlevel] at hswitched
        | normal => decide
        | strict => decide
      simp only [Pass.checks, Checks.standard, List.forall_mem_cons]
      exact ⟨rfl, Undefined.check_waits.enabled_eq h (by decide),
        Imports.check_waits.enabled_eq h (by decide),
        Smells.check_waits.enabled_eq_of_iff
          (iff_of_true hleast (Nat.le_trans hleast (Nat.le_of_lt hless))),
        Hazards.check_waits.enabled_eq h (by decide), rfl, List.forall_mem_nil _⟩
  | logical =>
    have hunused : Unused.check.enabled eased = Unused.check.enabled full := by
      by_cases hgate : Gate.level = gate
      · subst hgate
        have hmost : Gate.level.strictness full < 2 := by
          show full.level.rank < 2
          cases hlevel : full.level with
          | lenient => decide
          | normal => decide
          | strict => simp [Gate.switched?, hlevel] at hswitched
        exact Unused.check_waits.enabled_eq_of_iff
          (iff_of_false (Nat.not_le.mpr (Nat.lt_trans hless hmost)) (Nat.not_le.mpr hmost))
      · exact Unused.check_waits.enabled_eq h hgate
    simp only [Pass.checks, Checks.standard, List.forall_mem_cons]
    exact ⟨rfl, hunused, rfl, rfl, rfl, List.forall_mem_nil _⟩

end

/-! ### What the switched checks find -/

theorem Subject.placedError (subject : Subject) (line : Nat) (message : String)
    (hints : List String) :
    (Finding.error ((subject.diagnosticAt line message).suggestAll hints)).IsPlacedError :=
  ⟨rfl, subject.context line, Diagnostic.suggestAll_context _ hints⟩

theorem Hazards.check_errors (subject : Subject) :
    ∀ finding ∈ Hazards.check.findings subject, finding.IsPlacedError := by
  intro finding hfinding
  obtain ⟨⟨pattern, hints⟩, -, hmatch⟩ := List.mem_flatMap.mp hfinding
  obtain ⟨⟨offset, text⟩, -, rfl⟩ := List.mem_map.mp hmatch
  exact subject.placedError _ _ hints

theorem Undefined.check_errors (subject : Subject) :
    ∀ finding ∈ Undefined.check.findings subject, finding.IsPlacedError :=
  List.forall_mem_map.mpr fun _ _ => subject.placedError _ _ _

theorem Indentation.check_errors (subject : Subject) :
    ∀ finding ∈ Indentation.check.findings subject, finding.IsPlacedError :=
  List.forall_mem_map.mpr fun _ _ => subject.placedError _ _ _

theorem Characters.check_errors (subject : Subject) :
    ∀ finding ∈ Characters.check.findings subject, finding.IsPlacedError :=
  List.forall_mem_map.mpr fun _ _ => subject.placedError _ _ []

/-- Messages without a place are warnings. -/
theorem Finding.isWarning_of_messages {messages : List String} :
    ∀ finding ∈ messages.map fun message => Finding.warning (.ofMessage message),
      finding.IsWarning := by
  intro finding hfinding
  obtain ⟨message, -, rfl⟩ := List.mem_map.mp hfinding
  rfl

theorem Imports.check_warnings (subject : Subject) :
    ∀ finding ∈ Imports.check.findings subject, finding.IsWarning :=
  Finding.isWarning_of_messages

theorem Smells.check_warnings (subject : Subject) :
    ∀ finding ∈ Smells.check.findings subject, finding.IsWarning :=
  Finding.isWarning_of_messages

/-- The checks of the syntax pass report errors that point at a place, or warnings. -/
theorem Checks.standard_syntax_kinds (subject : Subject)
    (hcheck : check ∈ Checks.standard.syntaxChecks) :
    ∀ finding ∈ check.findings subject, finding.IsPlacedError ∨ finding.IsWarning := by
  simp only [Checks.standard, List.mem_cons, List.not_mem_nil, or_false] at hcheck
  rcases hcheck with rfl | rfl | rfl | rfl | rfl | rfl
  · exact fun finding hfinding => .inl (Indentation.check_errors subject finding hfinding)
  · exact fun finding hfinding => .inl (Undefined.check_errors subject finding hfinding)
  · exact fun finding hfinding => .inr (Imports.check_warnings subject finding hfinding)
  · exact fun finding hfinding => .inr (Smells.check_warnings subject finding hfinding)
  · exact fun finding hfinding => .inl (Hazards.check_errors subject finding hfinding)
  · exact fun finding hfinding => .inl (Characters.check_errors subject finding hfinding)

/-! ### Verdicts -/

namespace Pass

/-- The verdict that findings of a pass add up to; the logic pass only ever warns. -/
def recorded : Pass → List Finding → Verdict
  | .syntactic, findings => .ofFindings findings
  | .logical, findings => (findings.map Finding.text).foldl Verdict.addWarning .empty

/-- The tree that the checks of a pass get to see, if they run at all. -/
def seen? : Pass → String → Option Tree
  | .syntactic, source => if isBlankText source.toList then none else (buildTree source).toOption
  | .logical, source => (buildTree source).toOption

theorem recorded_append (pass : Pass) (first second : List Finding) :
    pass.recorded (first ++ second) = pass.recorded first ++ pass.recorded second := by
  cases pass with
  | syntactic => exact Verdict.ofFindings_append first second
  | logical =>
    simp only [recorded, Verdict.foldl_addWarning, List.map_append]
    rfl

/-- Any findings of the checks of a pass are recorded in step. -/
theorem recorded_aligned {subject : Subject} {findings : List Finding}
    (hfindings : findings ⊆ Check.runAll pass.checks subject) :
    (pass.recorded findings).Aligned := by
  cases pass with
  | syntactic =>
    refine Verdict.aligned_ofFindings fun finding hfinding => ?_
    obtain ⟨check, hcheck, hfound⟩ := List.mem_flatMap.mp (hfindings hfinding)
    exact Checks.standard_syntax_kinds subject (List.mem_of_mem_filter hcheck) finding hfound
  | logical =>
    simp only [recorded, Verdict.foldl_addWarning]
    exact ⟨rfl, rfl⟩

end Pass

namespace Session

variable {eased full : Config} {pass : Pass} {source : String} {tree : Tree}

/-- Where its checks run, the verdict of a pass is what they find. -/
theorem verdictOn_of_seen (config : Config) (hseen : pass.seen? source = some tree) :
    verdictOn config Checks.standard pass source =
      pass.recorded (Check.runAll pass.checks ⟨source, tree, config⟩) := by
  cases pass with
  | syntactic =>
    obtain ⟨hblank, htree⟩ := Option.ite_none_left_eq_some.mp hseen
    rw [verdictOn, if_neg hblank]
    cases hbuild : buildTree source with
    | error failure =>
      rw [hbuild] at htree
      cases htree
    | ok built =>
      rw [hbuild] at htree
      cases htree
      rfl
  | logical =>
    rw [verdictOn]
    cases hbuild : buildTree source with
    | error failure =>
      rw [Pass.seen?, hbuild] at hseen
      cases hseen
    | ok built =>
      rw [Pass.seen?, hbuild] at hseen
      cases hseen
      show (_ ++ []).foldl Verdict.addWarning .empty = _
      rw [List.append_nil]
      rfl

/-- Where no check runs, the gates make no difference. -/
theorem verdictOn_of_unseen (hlimits : eased.SameLimits full) (checks : Checks)
    (hseen : pass.seen? source = none) :
    verdictOn eased checks pass source = verdictOn full checks pass source := by
  cases pass with
  | syntactic =>
    simp only [verdictOn]
    split
    · rfl
    · rename_i hblank
      rw [Pass.seen?, if_neg hblank] at hseen
      cases hbuild : buildTree source with
      | error failure => simp only [Checks.syntaxVerdict, hlimits.contextLines]
      | ok built =>
        rw [hbuild] at hseen
        cases hseen
  | logical =>
    rw [Pass.seen?] at hseen
    cases hbuild : buildTree source with
    | error failure => simp only [verdictOn, hbuild, Checks.logicVerdict]
    | ok built =>
      rw [hbuild] at hseen
      cases hseen

end Session

/-! ### Relaxing a gate -/

/-- Whether the checks that a gate switches report errors; if not, they warn. -/
def Gate.raisesErrors : Gate → Bool
  | unsafeOperations | undefinedNames => true
  | imports | level => false

/-- How the verdicts of a pass differ where a gate is relaxed. -/
structure Gated (gate : Gate) (eased full : Config) (pass : Pass) (source : String)
    (relaxed strict : Verdict) : Prop where
  /-- What the switched check finds is missing, as one block; the rest is as it was. -/
  removed :
    match pass.seen? source, gate.switched? eased full pass with
    | some tree, some check =>
      ∃ before after : List Finding,
        relaxed = pass.recorded before ++ pass.recorded after ∧
        strict = pass.recorded before ++ pass.recorded (check.findings ⟨source, tree, full⟩) ++
          pass.recorded after ∧
        (pass.recorded before).Aligned ∧
        (pass.recorded (check.findings ⟨source, tree, full⟩)).Aligned ∧
        (pass.recorded after).Aligned
    | _, _ => relaxed = strict
  /-- The lists that the switched check does not write to are the same. -/
  kept :
    if gate.raisesErrors then relaxed.warnings = strict.warnings
    else relaxed.isValid = strict.isValid ∧ relaxed.errors = strict.errors ∧
      relaxed.lineNumbers = strict.lineNumbers ∧ relaxed.contexts = strict.contexts
  suggestions : relaxed.suggestions = strict.suggestions
  within : relaxed.Within strict

section

variable {gate : Gate} {eased full : Config} {pass : Pass} {check : Check}

theorem Gated.of_eq (source : String) (verdict : Verdict)
    (hnone : pass.seen? source = none ∨ gate.switched? eased full pass = none) :
    Gated gate eased full pass source verdict verdict where
  removed := by
    rcases hnone with hnone | hnone
    · rw [hnone]
    · rw [hnone]
      cases pass.seen? source <;> rfl
  kept := by
    split
    · rfl
    · exact ⟨rfl, rfl, rfl, rfl⟩
  suggestions := rfl
  within := .refl verdict

/-- What a switched check finds is either errors or warnings. -/
theorem Gate.switched_block (hswitched : gate.switched? eased full pass = some check)
    (subject : Subject) :
    (pass.recorded (check.findings subject)).suggestions = [] ∧
      if gate.raisesErrors then (pass.recorded (check.findings subject)).warnings = []
      else (pass.recorded (check.findings subject)).isValid = true ∧
        (pass.recorded (check.findings subject)).errors = [] ∧
        (pass.recorded (check.findings subject)).lineNumbers = [] ∧
        (pass.recorded (check.findings subject)).contexts = [] := by
  cases pass with
  | syntactic =>
    cases gate with
    | unsafeOperations =>
      obtain rfl : Hazards.check = check := Option.some.inj hswitched
      exact (Verdict.ofFindings_of_errors (Hazards.check_errors subject)).symm
    | undefinedNames =>
      obtain rfl : Undefined.check = check := Option.some.inj hswitched
      exact (Verdict.ofFindings_of_errors (Undefined.check_errors subject)).symm
    | imports =>
      obtain rfl : Imports.check = check := Option.some.inj hswitched
      rw [Pass.recorded, Verdict.ofFindings_of_warnings (Imports.check_warnings subject)]
      exact ⟨rfl, rfl, rfl, rfl, rfl⟩
    | level =>
      obtain ⟨-, hcheck⟩ := Option.ite_none_right_eq_some.mp hswitched
      obtain rfl : Smells.check = check := Option.some.inj hcheck
      rw [Pass.recorded, Verdict.ofFindings_of_warnings (Smells.check_warnings subject)]
      exact ⟨rfl, rfl, rfl, rfl, rfl⟩
  | logical =>
    -- The logic pass only warns, and only the level switches a check of it.
    rw [Pass.recorded, Verdict.foldl_addWarning]
    cases gate with
    | unsafeOperations => cases hswitched
    | undefinedNames => cases hswitched
    | imports => cases hswitched
    | level => exact ⟨rfl, rfl, rfl, rfl, rfl⟩

theorem Pass.findings_congr (hlimits : eased.SameLimits full) (source : String) (tree : Tree)
    (hcheck : check ∈ pass.checks) :
    check.findings ⟨source, tree, eased⟩ = check.findings ⟨source, tree, full⟩ := by
  refine Checks.standard_findings_congr hlimits source tree ?_
  cases pass with
  | syntactic => exact List.mem_append_left _ hcheck
  | logical => exact List.mem_append_right _ hcheck

/-- Where a check is switched, the verdicts are the same before and after its block. -/
theorem Gate.Relaxes.cut (h : gate.Relaxes eased full)
    (hswitched : gate.switched? eased full pass = some check) (source : String) (tree : Tree) :
    ∃ before after, Check.runAll pass.checks ⟨source, tree, eased⟩ = before ++ after ∧
      Check.runAll pass.checks ⟨source, tree, full⟩ =
        before ++ check.findings ⟨source, tree, full⟩ ++ after := by
  obtain ⟨before, after, hsplit, ⟨hoff, hon⟩, hothers⟩ := h.splits hswitched
  have hbefore : ∀ other ∈ before, other ∈ pass.checks := fun other hother => by
    rw [hsplit]
    exact List.mem_append_left _ (List.mem_append_left _ hother)
  have hafter : ∀ other ∈ after, other ∈ pass.checks := fun other hother => by
    rw [hsplit]
    exact List.mem_append_right _ hother
  have hsame : Check.runAll before ⟨source, tree, eased⟩
      = Check.runAll before ⟨source, tree, full⟩ :=
    Check.runAll_congr fun other hother => ⟨hothers other (List.mem_append_left _ hother),
      Pass.findings_congr h.limits source tree (hbefore other hother)⟩
  have hsame' : Check.runAll after ⟨source, tree, eased⟩
      = Check.runAll after ⟨source, tree, full⟩ :=
    Check.runAll_congr fun other hother => ⟨hothers other (List.mem_append_right _ hother),
      Pass.findings_congr h.limits source tree (hafter other hother)⟩
  obtain ⟨hnothing, hblock⟩ := Check.runAll_switched hoff hon source tree
  refine ⟨Check.runAll before ⟨source, tree, full⟩, Check.runAll after ⟨source, tree, full⟩, ?_, ?_⟩
  · rw [hsplit, Check.runAll_append, Check.runAll_append, hsame, hsame', hnothing, List.append_nil]
  · rw [hsplit, Check.runAll_append, Check.runAll_append, hblock]

/-- A lower level relaxes the gate of the level. -/
theorem Gate.relaxes_level (config : Config) {low high : Level} (hlow : low.rank < high.rank) :
    Gate.level.Relaxes { config with level := low } { config with level := high } where
  limits := ⟨rfl, rfl, rfl⟩
  less := hlow
  others := by
    intro other hother
    cases other with
    | level => exact absurd rfl hother
    | unsafeOperations => rfl
    | imports => rfl
    | undefinedNames => rfl

/-- **A relaxed gate removes one block.** -/
theorem Gate.Relaxes.gated (h : gate.Relaxes eased full) (pass : Pass) (source : String) :
    Gated gate eased full pass source (Session.verdictOn eased Checks.standard pass source)
      (Session.verdictOn full Checks.standard pass source) := by
  cases hseen : pass.seen? source with
  | none =>
    rw [Session.verdictOn_of_unseen h.limits _ hseen]
    exact Gated.of_eq source _ (.inl hseen)
  | some tree =>
    rw [Session.verdictOn_of_seen eased hseen, Session.verdictOn_of_seen full hseen]
    cases hswitched : gate.switched? eased full pass with
    | none =>
      have hsame : Check.runAll pass.checks ⟨source, tree, eased⟩ =
          Check.runAll pass.checks ⟨source, tree, full⟩ :=
        Check.runAll_congr fun check hcheck => ⟨h.unswitched hswitched check hcheck,
          Pass.findings_congr h.limits source tree hcheck⟩
      rw [hsame]
      exact Gated.of_eq source _ (.inr hswitched)
    | some check =>
      obtain ⟨before, after, heased, hfull⟩ := h.cut hswitched source tree
      obtain ⟨hsuggestions, hkind⟩ := Gate.switched_block hswitched ⟨source, tree, full⟩
      have haligned : ∀ findings, findings ⊆
          before ++ check.findings ⟨source, tree, full⟩ ++ after →
            (pass.recorded findings).Aligned := fun findings hfindings =>
        Pass.recorded_aligned (hfull ▸ hfindings)
      rw [heased, hfull]
      simp only [Pass.recorded_append]
      refine ⟨?_, ?_, ?_, Verdict.within_append _ _ _⟩
      · rw [hseen, hswitched]
        exact ⟨before, after, rfl, rfl, haligned _ (by simp), haligned _ (by simp),
          haligned _ (by simp)⟩
      · split at hkind
        · rename_i hraises
          rw [if_pos hraises]
          simp [hkind]
        · rename_i hraises
          obtain ⟨hvalid, herrors, hlines, hcontexts⟩ := hkind
          rw [if_neg hraises]
          simp [hvalid, herrors, hlines, hcontexts]
      · simp [hsuggestions]

end

namespace Session

theorem opened_gated {gate : Gate} {eased full : Config} {relaxed strict : Session}
    (hrelaxes : gate.Relaxes eased full)
    (hrelaxed : Session.open? eased Checks.standard = .ok relaxed)
    (hstrict : Session.open? full Checks.standard = .ok strict) (pass : Pass) (source : String) :
    Gated gate eased full pass source
      (relaxed.verdict pass source).1 (strict.verdict pass source).1 := by
  obtain rfl := eq_fresh_of_open? hrelaxed
  obtain rfl := eq_fresh_of_open? hstrict
  rw [verdict_fresh, verdict_fresh]
  exact hrelaxes.gated pass source

/--
**Gates do not interfere.**  Take any text and either pass.  If two configurations that can
be opened have the same limits and differ at one gate, then the verdict of the one that asks
for less is that of the other without the findings of the check that the gate switches,
which form one block; errors, lines and contexts go together, and the list that the check
does not write to is the same.  So what the lenient level tells is among what the normal
level tells, in order, and that among what the strict level tells.
-/
theorem verdict_gated (pass : Pass) (source : String) :
    (∀ (gate : Gate) (eased full : Config) (relaxed strict : Session),
      gate.Relaxes eased full →
      Session.open? eased Checks.standard = .ok relaxed →
      Session.open? full Checks.standard = .ok strict →
      Gated gate eased full pass source
        (relaxed.verdict pass source).1 (strict.verdict pass source).1) ∧
    ∀ (config : Config) (lenient normal strict : Session),
      Session.open? { config with level := .lenient } Checks.standard = .ok lenient →
      Session.open? { config with level := .normal } Checks.standard = .ok normal →
      Session.open? { config with level := .strict } Checks.standard = .ok strict →
      (lenient.verdict pass source).1.Within (normal.verdict pass source).1 ∧
        (normal.verdict pass source).1.Within (strict.verdict pass source).1 := by
  constructor
  · intro gate eased full relaxed strict hrelaxes hrelaxed hstrict
    exact opened_gated hrelaxes hrelaxed hstrict pass source
  · intro config lenient normal strict hlenient hnormal hstrict
    have hlow := Gate.relaxes_level config (show Level.lenient.rank < Level.normal.rank by decide)
    have hhigh := Gate.relaxes_level config (show Level.normal.rank < Level.strict.rank by decide)
    exact ⟨(opened_gated hlow hlenient hnormal pass source).within,
      (opened_gated hhigh hnormal hstrict pass source).within⟩

/-- One call that is unsafe is one error less if such calls are allowed, and the levels are
ordered on the same text. -/
theorem verdict_gated_unsafe_call :
    let eased : Config := { Config.default with allowUnsafe := true, cacheCapacity := 1 }
    let relaxed := fresh eased Checks.standard
    let strict := fresh Config.default Checks.standard
    let normal := fresh { Config.default with level := .normal } Checks.standard
    Gate.unsafeOperations.Relaxes eased Config.default ∧
      Gated .unsafeOperations eased Config.default .syntactic "eval(1)"
        (relaxed.verdict .syntactic "eval(1)").1 (strict.verdict .syntactic "eval(1)").1 ∧
      (relaxed.verdict .syntactic "eval(1)").1.errors.length = 0 ∧
      (strict.verdict .syntactic "eval(1)").1.errors.length = 1 ∧
      (normal.verdict .syntactic "eval(1)").1.Within (strict.verdict .syntactic "eval(1)").1 := by
  intro eased relaxed strict normal
  have hrelaxes : Gate.unsafeOperations.Relaxes eased Config.default := by
    refine ⟨⟨rfl, rfl, rfl⟩, by decide, ?_⟩
    intro other hother
    cases other with
    | unsafeOperations => exact absurd rfl hother
    | level => rfl
    | imports => rfl
    | undefinedNames => rfl
  refine ⟨hrelaxes, (verdict_gated .syntactic "eval(1)").1 _ _ _ relaxed strict hrelaxes rfl rfl,
    ?_, ?_, ((verdict_gated .syntactic "eval(1)").2 Config.default _ normal strict rfl rfl rfl).2⟩
  · rw [verdict_fresh]
    decide +kernel
  · rw [verdict_fresh]
    decide +kernel

end Session

end Scrutiny
