/-
What is reported is reported at a line that the text has.

A text without a tree is reported at the position where it fails, and that position is
real.  Where there is a tree, a check points at a line by an offset: of a node of the tree,
of a match in the text or of a logical line.  All these are offsets inside the text
(`Subject.Sound`), each of them is on a line that exists, and the context of such a line
shows its content (`Context.ofSource_real`).
-/
import Scrutiny.Passes
import Scrutiny.Proofs.Check.Characters
import Scrutiny.Proofs.Check.Unreachable
import Scrutiny.Proofs.Grammar.StmtSpans
import Scrutiny.Proofs.Tree.Failures

namespace Scrutiny

variable {line : Nat} {source : String}

/-! ### Contexts of real lines -/

/-- The line is there, and its content is shown. -/
def Context.Real (source : String) (context : Context) : Prop :=
  ∃ content, HasLine source.toList context.line content ∧
    context.snippet = some (String.ofList content)

/-- If a finding points anywhere, then at a line that is there. -/
def Finding.Real (source : String) (finding : Finding) : Prop :=
  ∀ context, finding.diagnostic.context = some context → context.Real source

theorem Context.ofSource_eq {content : List Char}
    (h : HasLine source.toList line content) (column : Option Nat) (window : Nat) :
    ∃ surrounding first, ofSource source line column window
      = ⟨line, column, some (String.ofList content), surrounding, first⟩ := by
  obtain ⟨hpos, hle, hcontent⟩ := h
  have hthere : ¬ (line = 0 ∨ ((splitLines source.toList).map String.ofList).length < line) := by
    rw [List.length_map]
    omega
  have hline : line ≠ 0 := by omega
  simp only [ofSource, if_neg hthere, if_neg hline, List.getElem?_map, hcontent, Option.map_some]
  exact ⟨_, _, rfl⟩

theorem Context.ofSource_real {content : List Char}
    (h : HasLine source.toList line content) (column : Option Nat) (window : Nat) :
    (ofSource source line column window).Real source := by
  obtain ⟨surrounding, first, heq⟩ := ofSource_eq h column window
  rw [heq]
  exact ⟨content, h, rfl⟩

@[simp] theorem Diagnostic.suggestAll_context (d : Diagnostic) (suggestions : List String) :
    (d.suggestAll suggestions).context = d.context := by
  unfold Diagnostic.suggestAll
  induction suggestions generalizing d with
  | nil => rfl
  | cons s suggestions ih =>
    rw [List.foldl_cons, ih, Diagnostic.suggest]
    split
    · rfl
    · rfl

/-! ### Failures -/

theorem Failure.finding_context (source : String) (failure : SyntaxFailure) (window : Nat) :
    (Failure.finding source failure window).diagnostic.context
      = some (.ofSource source failure.position.line (some failure.position.column) window) := by
  simp [Failure.finding, Finding.withContext, Finding.error, Diagnostic.pointingAt]

/-! ### What a check looks at -/

/-- The tree belongs to the text: its nodes stand in it, and its lines are lines of it. -/
structure Subject.Sound (subject : Subject) : Prop where
  table : subject.tree.lines = .ofText subject.chars
  placed : ∀ n, subject.tree.module.Has n → n.Placed subject.chars
  logical : ∀ line ∈ subject.tree.logicalLines,
    ∃ k < byteLength subject.chars, line.line = (LineTable.ofText subject.chars).line k

/-- A logical line begins with a token of the text. -/
theorem tokenize_lines {stream : TokenStream} (h : tokenize source = .ok stream) :
    ∀ line ∈ stream.lines, ∃ k < byteLength source.toList,
      line.line = (LineTable.ofText source.toList).line k := by
  intro line hline
  have htokens : ∃ runs tail, stream.tokens = runs.flatten ++ tail ∧
      List.Forall₂ (LogicalLine.Ends (.ofText source.toList)) stream.lines runs := by
    obtain ⟨lexemes, last, out, lines, rest, hscan, hsteps, hfinish, rfl⟩ := tokenize_steps h
    obtain ⟨⟨runs, tail, htokens, -, hruns⟩, -⟩ := hsteps.finish_lines (scan_scanned hscan) hfinish
    exact ⟨runs, tail, htokens, hruns⟩
  obtain ⟨runs, tail, htokens, hruns⟩ := htokens
  obtain ⟨hlength, hends⟩ := List.forall₂_iff_get.mp hruns
  obtain ⟨i, hi, rfl⟩ := List.getElem_of_mem hline
  obtain ⟨body, newline, hrun, -, hdescribes⟩ := hends i hi (hlength ▸ hi)
  obtain ⟨first, hfirst, hplace⟩ := hdescribes.place
  have hmem : first ∈ stream.tokens := by
    rw [htokens]
    refine List.mem_append_left tail
      (List.mem_flatten.mpr ⟨_, List.get_mem runs ⟨i, hlength ▸ hi⟩, ?_⟩)
    rw [hrun]
    exact List.mem_append_left _ (List.mem_of_find?_eq_some hfirst)
  have hplain : first.token.isMark = false := by simpa using List.find?_some hfirst
  have hlt := ((Site.ofTokens h).written first hmem hplain).1
  have hle := (tokenize_inside h first hmem).2
  exact ⟨first.span.start, by omega, hplace⟩

theorem buildTree_sound {tree : Tree} (h : buildTree source = .ok tree)
    (config : Config) : Subject.Sound ⟨source, tree, config⟩ := by
  rcases fails_or_parses source with ⟨error, hfails⟩ | ⟨module, stream, htokens, hparse, htree⟩
  · simp [hfails.buildTree_eq] at h
  · obtain rfl : Tree.mk module (.ofText source.toList) stream.lines = tree := by
      simpa [htree] using h
    obtain ⟨stream', last, hstream, hread⟩ := parse_cases hparse
    exact ⟨rfl, (Module.placed_of_moduleUpTo hstream hread).1, tokenize_lines htokens⟩

namespace Subject.Sound

variable {subject : Subject} {k line : Nat}

/-- Where a node of the tree starts is inside the text. -/
theorem start_lt (h : subject.Sound) (hk : StartsAt subject.tree.module.Has k) :
    k < byteLength subject.chars := by
  obtain ⟨n, hn, rfl⟩ := hk
  exact Nat.lt_of_lt_of_le (h.placed n hn).nonempty (h.placed n hn).inside

theorem lineOf_real (h : subject.Sound) (hk : k < byteLength subject.chars) :
    ∃ content, HasLine subject.chars (subject.lineOf k) content := by
  rw [lineOf, Tree.lineOf, h.table]
  exact LineTable.hasLine hk

end Subject.Sound

/-- A diagnostic at a line that is there makes a real finding, whatever it says. -/
theorem Subject.real_of_hasLine {subject : Subject} {finding : Finding}
    (hline : ∃ content, HasLine subject.chars line content)
    (hcontext : finding.diagnostic.context = some (subject.context line)) :
    finding.Real subject.source := by
  obtain ⟨content, hcontent⟩ := hline
  intro context heq
  rw [hcontext, Option.some.injEq] at heq
  rw [← heq]
  exact Context.ofSource_real hcontent none _

/-! ### Offsets in the text -/

theorem Pattern.matchesFrom_bounds (p : Pattern) (cs : List Char) (offset skip : Nat)
    (before : Option Char) : ∀ found ∈ p.matchesFrom offset skip before cs,
      offset ≤ found.1 ∧ found.1 < offset + byteLength cs := by
  induction cs generalizing offset skip before with
  | nil => simp [matchesFrom]
  | cons c cs ih =>
    have hpos := c.utf8Size_pos
    have hlater (skip : Nat) (found : Nat × String)
        (hfound : found ∈ p.matchesFrom (offset + c.utf8Size) skip (some c) cs) :
        offset ≤ found.1 ∧ found.1 < offset + byteLength (c :: cs) := by
      have := ih _ skip (some c) found hfound
      rw [byteLength_cons]
      omega
    intro found hfound
    unfold matchesFrom at hfound
    split at hfound
    · exact hlater _ found hfound
    · simp only at hfound
      split at hfound
      · exact hlater _ found hfound
      · rcases List.mem_cons.mp hfound with rfl | hfound
        · rw [byteLength_cons]
          exact ⟨Nat.le_refl _, by simp only; omega⟩
        · exact hlater _ found hfound

/-! ### Unreachable statements -/

theorem mem_blockUnreachable {block : List Stmt} {found : Stmt × Stmt}
    (h : found ∈ blockUnreachable block) : ∃ s ∈ block, found.2 = s ∨ found ∈ s.unreachable := by
  induction block with
  | nil => simp [blockUnreachable] at h
  | cons s rest ih =>
    rw [blockUnreachable, List.mem_append] at h
    rcases h with h | h
    · exact ⟨s, List.mem_cons_self, Or.inr h⟩
    · split at h
      · obtain ⟨t, ht, rfl⟩ := List.mem_map.mp h
        exact ⟨t, List.mem_cons_of_mem s ht, Or.inl rfl⟩
      · obtain ⟨t, ht, hfound⟩ := ih h
        exact ⟨t, List.mem_cons_of_mem s ht, hfound⟩

/-- What is unreachable in a statement is in the tree below it. -/
theorem Stmt.has_unreachable {s : Stmt} {found : Stmt × Stmt} (h : found ∈ s.unreachable) :
    (Node.stmt s).Has (.stmt found.2) := by
  rw [Stmt.unreachable_eq] at h
  split at h
  · cases h
  · obtain ⟨block, hblock, hfound⟩ := List.mem_flatMap.mp h
    obtain ⟨t, ht, hfound⟩ := mem_blockUnreachable hfound
    have hmem : t ∈ s.blocks.flatten := List.mem_flatten_of_mem hblock ht
    refine (Stmt.has_of_mem_blocks hmem).trans ?_
    rcases hfound with heq | hfound
    · rw [heq]
      exact .self
    · exact Stmt.has_unreachable hfound
termination_by sizeOf s
decreasing_by exact Stmt.sizeOf_lt_of_mem_blocks hmem

/-- The unreachable statements of a function are in the tree with it. -/
theorem Module.has_unreachable {module : Module} {definition : FunctionDef}
    (h : definition ∈ (allStmts module.body).filterMap Stmt.function?) :
    ∀ found ∈ blockUnreachable definition.body, module.Has (.stmt found.2) := by
  intro found hfound
  obtain ⟨s, hs, hfunction⟩ := List.mem_filterMap.mp h
  obtain ⟨span, rfl⟩ := Stmt.function?_eq_some.mp hfunction
  obtain ⟨t, ht, hfound⟩ := mem_blockUnreachable hfound
  have hbody : module.Has (.stmt t) :=
    Hereditary.of_has module.hereditary_has (Module.has_of_mem_allStmts hs)
      (Stmt.has_of_mem_blocks (by simpa [Stmt.blocks] using ht))
  rcases hfound with heq | hfound
  · rwa [heq]
  · exact Hereditary.of_has module.hereditary_has hbody (Stmt.has_unreachable hfound)

/-! ### The checks -/

/-- A fault of the indentation is on a logical line. -/
theorem Indentation.faultsFrom_line {size : Nat} {levels : List Nat} {lines : List LogicalLine} :
    ∀ found ∈ faultsFrom size levels lines, ∃ line ∈ lines, found.1 = line.line := by
  induction lines generalizing levels with
  | nil => simp [faultsFrom]
  | cons line rest ih =>
    intro found hfound
    simp only [faultsFrom, List.mem_append] at hfound
    rcases hfound with (hmixed | hfault) | hlater
    · split at hmixed
      · exact ⟨line, List.mem_cons_self, by rw [List.mem_singleton.mp hmixed]⟩
      · simp at hmixed
    · obtain ⟨fault, -, rfl⟩ := Option.map_eq_some_iff.mp (Option.mem_toList.mp hfault)
      exact ⟨line, List.mem_cons_self, rfl⟩
    · obtain ⟨other, hother, heq⟩ := ih found hlater
      exact ⟨other, List.mem_cons_of_mem _ hother, heq⟩

section

variable {subject : Subject} (h : subject.Sound)

include h

theorem Indentation.check_real : ∀ finding ∈ Indentation.check.findings subject,
    finding.Real subject.source := by
  intro finding hfinding
  obtain ⟨found, hfound, rfl⟩ := List.mem_map.mp hfinding
  have hline : ∃ content, HasLine subject.chars found.1 content := by
    obtain ⟨line, hline, heq⟩ := faultsFrom_line found hfound
    obtain ⟨k, hk, hplace⟩ := h.logical line hline
    rw [heq, hplace]
    exact LineTable.hasLine hk
  exact Subject.real_of_hasLine hline (Diagnostic.suggestAll_context ..)

theorem Undefined.check_real : ∀ finding ∈ Undefined.check.findings subject,
    finding.Real subject.source := by
  intro finding hfinding
  obtain ⟨found, hfound, rfl⟩ := List.mem_map.mp hfinding
  have hstart := Module.undefinedNames_inside _ found hfound
  exact Subject.real_of_hasLine (h.lineOf_real (h.start_lt hstart))
    (Diagnostic.suggestAll_context ..)

theorem Hazards.check_real : ∀ finding ∈ Hazards.check.findings subject,
    finding.Real subject.source := by
  intro finding hfinding
  obtain ⟨entry, -, hfinding⟩ := List.mem_flatMap.mp hfinding
  obtain ⟨found, hfound, rfl⟩ := List.mem_map.mp hfinding
  have hbound := (Pattern.matchesFrom_bounds _ _ _ _ _ found hfound).2
  rw [Nat.zero_add] at hbound
  exact Subject.real_of_hasLine (h.lineOf_real hbound) (Diagnostic.suggestAll_context ..)

theorem Characters.check_real : ∀ finding ∈ Characters.check.findings subject,
    finding.Real subject.source := by
  intro finding hfinding
  obtain ⟨found, hfound, rfl⟩ := List.mem_map.mp hfinding
  obtain ⟨o, rfl⟩ := mem_occurrences.mp (mem_of_mem_eraseDupsBy hfound)
  exact Subject.real_of_hasLine (h.lineOf_real o.offset_lt) rfl

theorem Unreachable.check_real : ∀ finding ∈ Unreachable.check.findings subject,
    finding.Real subject.source := by
  intro finding hfinding
  obtain ⟨definition, hdefinition, hfinding⟩ := List.mem_flatMap.mp hfinding
  obtain ⟨found, hfound, rfl⟩ := List.mem_map.mp hfinding
  have hhas := Module.has_unreachable hdefinition found hfound
  exact Subject.real_of_hasLine (h.lineOf_real (h.start_lt ⟨_, hhas, rfl⟩)) rfl

theorem Unused.check_real : ∀ finding ∈ Unused.check.findings subject,
    finding.Real subject.source := by
  intro finding hfinding
  obtain ⟨found, hfound, rfl⟩ := List.mem_map.mp hfinding
  have hstart := Module.unusedNames_inside _ found hfound
  exact Subject.real_of_hasLine (h.lineOf_real (h.start_lt hstart)) rfl

theorem Endless.check_real : ∀ finding ∈ Endless.check.findings subject,
    finding.Real subject.source := by
  intro finding hfinding
  obtain ⟨s, hs, rfl⟩ := List.mem_map.mp hfinding
  have hhas := Module.has_of_mem_allStmts (List.mem_filter.mp hs).1
  exact Subject.real_of_hasLine (h.lineOf_real (h.start_lt ⟨_, hhas, rfl⟩)) rfl

theorem Returnless.check_real : ∀ finding ∈ Returnless.check.findings subject,
    finding.Real subject.source := by
  intro finding hfinding
  obtain ⟨s, hs, hfound⟩ := List.mem_filterMap.mp hfinding
  obtain ⟨definition, -, rfl⟩ := Option.map_eq_some_iff.mp hfound
  have hhas := Module.has_of_mem_allStmts hs
  exact Subject.real_of_hasLine (h.lineOf_real (h.start_lt ⟨_, hhas, rfl⟩)) rfl

end

/-- Messages without a place are about no line. -/
theorem Finding.real_of_messages {messages : List String} :
    ∀ finding ∈ messages.map fun message => Finding.warning (.ofMessage message),
      finding.Real source := by
  intro finding hfinding context hcontext
  obtain ⟨message, -, rfl⟩ := List.mem_map.mp hfinding
  simp [Finding.warning, Diagnostic.ofMessage] at hcontext

/-- **Checks report lines that the text has.** -/
theorem Subject.Sound.findings_real {subject : Subject} (h : subject.Sound) {check : Check}
    (hcheck : check ∈ Checks.standard.syntaxChecks ++ Checks.standard.logicChecks
      ++ Checks.standard.runtimeChecks) :
    ∀ finding ∈ check.findings subject, finding.Real subject.source := by
  simp only [Checks.standard, List.mem_append, List.mem_cons, List.not_mem_nil, or_false] at hcheck
  rcases hcheck with ((rfl | rfl | rfl | rfl | rfl | rfl) | rfl | rfl | rfl | rfl | rfl) | rfl
  · exact Indentation.check_real h
  · exact Undefined.check_real h
  · exact Finding.real_of_messages
  · exact Finding.real_of_messages
  · exact Hazards.check_real h
  · exact Characters.check_real h
  · exact Unreachable.check_real h
  · exact Unused.check_real h
  · exact Endless.check_real h
  · exact Returnless.check_real h
  · exact List.forall_mem_nil _
  · exact List.forall_mem_nil _

/--
**Every reported position is real.**  A text without a tree fails at the position of the
first of its syntax errors, of which there is one; the text has a line there that reaches
that column, and the finding about the failure shows it.  If there is a tree, whatever a
check of the syntax or the logic pass points at is a line of the text, and is shown.
-/
theorem reported_positions_real (source : String) (config : Config) :
    (∀ failure, buildTree source = .error failure → (∃ errors, parse source = .error errors ∧
        failure = .ofError source.toList (.ofText source.toList) errors.first) ∧
      failure.position.Real source.toList ∧
      ∃ context,
        (Failure.finding source failure config.contextLines).diagnostic.context = some context ∧
        context.line = failure.position.line ∧ context.column = some failure.position.column ∧
        context.Real source) ∧ ∀ tree, buildTree source = .ok tree →
      ∀ check ∈ Checks.standard.syntaxChecks ++ Checks.standard.logicChecks ++
        Checks.standard.runtimeChecks,
        ∀ finding ∈ check.findings ⟨source, tree, config⟩, finding.Real source := by
  refine ⟨fun failure hfailure => ?_, fun tree htree check hcheck => ?_⟩
  · obtain ⟨error, hfails, rfl⟩ := fails_of_buildTree hfailure
    obtain ⟨more, hparse⟩ := hfails.parse_eq
    obtain ⟨content, hline, hcolumn⟩ := hfails.position_real
    refine ⟨⟨_, hparse, rfl⟩, ⟨content, hline, hcolumn⟩, _, Failure.finding_context .., ?_⟩
    obtain ⟨surrounding, first, heq⟩ := Context.ofSource_eq hline (some _) config.contextLines
    rw [heq]
    exact ⟨rfl, rfl, content, hline, rfl⟩
  · exact (buildTree_sound htree config).findings_real hcheck

/-- A bracket left open on the second of three lines, and a name that nothing binds. -/
theorem reported_positions_real_open_bracket :
    (∃ failure, buildTree "a = 1\r\nb = (\r\n\r\n" = .error failure ∧ failure.position = ⟨2, 5⟩ ∧
      failure.position.Real "a = 1\r\nb = (\r\n\r\n".toList) ∧
    ∃ tree, buildTree "def f():\n    return g\n" = .ok tree ∧
      (Undefined.check.findings ⟨"def f():\n    return g\n", tree, .default⟩).length = 1 ∧
      ∀ finding ∈ Undefined.check.findings ⟨"def f():\n    return g\n", tree, .default⟩,
        finding.Real "def f():\n    return g\n" := by
  have hposition : ((buildTree "a = 1\r\nb = (\r\n\r\n").map fun _ => ()).mapError (·.position)
      = .error ⟨2, 5⟩ := by decide +kernel
  have hcount : ((buildTree "def f():\n    return g\n").toOption.map fun tree =>
      (Undefined.check.findings ⟨"def f():\n    return g\n", tree, .default⟩).length) = some 1 := by
    decide +kernel
  constructor
  · cases hfails : buildTree "a = 1\r\nb = (\r\n\r\n" with
    | ok tree => simp [hfails, Except.map, Except.mapError] at hposition
    | error failure =>
      have hreal := ((reported_positions_real _ .default).1 failure hfails).2.1
      rw [hfails] at hposition
      exact ⟨failure, rfl, Except.error.inj hposition, hreal⟩
  · cases htree : buildTree "def f():\n    return g\n" with
    | error failure => simp [htree, Except.toOption] at hcount
    | ok tree =>
      have hreal := (reported_positions_real _ .default).2 tree htree Undefined.check
        (by simp [Checks.standard])
      refine ⟨tree, rfl, ?_, hreal⟩
      rw [htree] at hcount
      exact Option.some.inj hcount

end Scrutiny
