/-
The layout, one token at a time.

`Layout.run` works from the front and builds its answer on the way back.  Its
invariants are easier to say of what has been put out so far, so this file gives
the same run as steps: `Step` lists everything that can happen to one token, and
`Steps` puts steps in a row, with the tokens and logical lines they put out.

A run that succeeds is steps followed by `finish` (`run_steps`), and steps can be
cut at any token (`Steps.cut`).  After this file nothing needs to look inside
`run` again.
-/
import Mathlib.Data.List.Basic
import Scrutiny.Token.Layout

namespace Scrutiny

/-- Whether a token is a mark of the layout: the end of a line, or of a change of
indentation. -/
def Token.isMark : Token → Bool
  | .newline | .indent | .dedent => true
  | _ => false

namespace Layout

variable {cs : List Char} {table : LineTable}

/-- What can happen to a token: the state after it, the tokens put out, and the
logical line that it ends. -/
inductive Step (cs : List Char) (table : LineTable) (state : State) (lexeme : Lexeme) :
    State → List Lexeme → List LogicalLine → Prop
  /-- A newline on a line with nothing on it is dropped. -/
  | blank (hnewline : lexeme.token = .newline) (hline : state.line? = none) :
      Step cs table state lexeme state [] []
  /-- So is a newline inside brackets. -/
  | inner (hnewline : lexeme.token = .newline) (hopen : state.brackets ≠ []) :
      Step cs table state lexeme state [] []
  /-- Any other newline ends its logical line. -/
  | ending {line : LogicalLine} (hnewline : lexeme.token = .newline)
      (hline : state.line? = some line) (hclosed : state.brackets = []) :
      Step cs table state lexeme { state with line? := none } [lexeme] [line]
  /-- The first token of a logical line settles its indentation. -/
  | first {indents : List Nat} {marks : List Token} {brackets : List (Bracket × Span)}
      (hother : lexeme.token ≠ .newline) (hline : state.line? = none)
      (hindent : reindent? state.indents (width (lineHead cs lexeme.span.start))
        = some (indents, marks))
      (hbrackets : matchBrackets state.brackets lexeme = .ok brackets) :
      Step cs table state lexeme
        ⟨indents, brackets, some ⟨table.line lexeme.span.start,
          indentText (lineHead cs lexeme.span.start), lexeme.token == .symbol .colon⟩⟩
        (marks.map (⟨·, .point lexeme.span.start⟩) ++ [lexeme]) []
  | further {line : LogicalLine} {brackets : List (Bracket × Span)}
      (hother : lexeme.token ≠ .newline) (hline : state.line? = some line)
      (hbrackets : matchBrackets state.brackets lexeme = .ok brackets) :
      Step cs table state lexeme
        { state with
          brackets
          line? := some { line with opensBlock := lexeme.token == .symbol .colon } }
        [lexeme] []

/-- Tokens in a row, the state after them, and everything put out for them. -/
inductive Steps (cs : List Char) (table : LineTable) (start : State) :
    List Lexeme → State → List Lexeme → List LogicalLine → Prop
  | nil : Steps cs table start [] start [] []
  | snoc {read : List Lexeme} {state next : State} {out more : List Lexeme}
      {lines ended : List LogicalLine} {lexeme : Lexeme}
      (hsteps : Steps cs table start read state out lines)
      (hstep : Step cs table state lexeme next more ended) :
      Steps cs table start (read ++ [lexeme]) next (out ++ more) (lines ++ ended)

theorem Steps.cons {start state last : State} {lexeme : Lexeme} {read more out : List Lexeme}
    {ended lines : List LogicalLine} (hstep : Step cs table start lexeme state more ended)
    (hsteps : Steps cs table state read last out lines) :
    Steps cs table start (lexeme :: read) last (more ++ out) (ended ++ lines) := by
  induction hsteps with
  | nil => simpa using Steps.nil.snoc hstep
  | snoc hsteps hlast ih =>
    have := ih.snoc hlast
    simpa [List.append_assoc] using this

/-- Steps can be cut at any token, into those before it, its own, and those after. -/
theorem Steps.cut {start last : State} {read out : List Lexeme} {lines : List LogicalLine}
    (h : Steps cs table start read last out lines) :
    ∀ {before after : List Lexeme} {lexeme : Lexeme}, read = before ++ lexeme :: after →
      ∃ (state next : State) (out₁ more out₂ : List Lexeme)
        (lines₁ ended lines₂ : List LogicalLine), Steps cs table start before state out₁ lines₁ ∧
        Step cs table state lexeme next more ended ∧
        Steps cs table next after last out₂ lines₂ ∧ out = out₁ ++ (more ++ out₂) := by
  induction h with
  | nil =>
    intro before after lexeme hread
    simp at hread
  | @snoc read state next out more lines ended latest hsteps hstep ih =>
    intro before after lexeme hread
    rcases List.eq_nil_or_concat after with rfl | ⟨init, last, rfl⟩
    · obtain ⟨rfl, hlatest⟩ := List.append_inj' hread rfl
      obtain rfl : latest = lexeme := by simpa using hlatest
      exact ⟨state, next, out, more, [], lines, ended, [], hsteps, hstep, .nil, by simp⟩
    · rw [List.concat_eq_append, ← List.cons_append, ← List.append_assoc] at hread
      obtain ⟨hread, hlatest⟩ := List.append_inj' hread rfl
      obtain ⟨mid, after, out₁, put, out₂, lines₁, e, lines₂, h₁, hcut, h₂, rfl⟩ := ih hread
      obtain rfl : latest = last := by simpa using hlatest
      refine ⟨mid, after, out₁, put, out₂ ++ more, lines₁, e, lines₂ ++ ended, h₁, hcut, ?_,
        by simp⟩
      rw [List.concat_eq_append]
      exact h₂.snoc hstep

/-! ### A run is steps -/

theorem except_map_eq_ok {ε α β : Type} {f : α → β} {x : Except ε α} {b : β}
    (h : x.map f = .ok b) : ∃ a, x = .ok a ∧ b = f a := by
  cases x with
  | error e => simp [Except.map] at h
  | ok a =>
    simp only [Except.map, Except.ok.injEq] at h
    exact ⟨a, rfl, h.symm⟩

/-- The first token of a run takes one step, and the rest of the run goes on from there. -/
theorem run_cons {state : State} {lexeme : Lexeme} {rest : List Lexeme} {stream : TokenStream}
    (h : run cs table state (lexeme :: rest) = .ok stream) :
    ∃ next more ended tail, Step cs table state lexeme next more ended ∧
      run cs table next rest = .ok tail ∧ stream = ⟨more ++ tail.tokens, ended ++ tail.lines⟩ := by
  unfold run at h
  split at h
  · rename_i hnewline
    cases hline : state.line? with
    | none =>
      simp only [hline] at h
      exact ⟨state, [], [], stream, .blank hnewline hline, h, rfl⟩
    | some line =>
      cases hbrackets : state.brackets with
      | nil =>
        simp only [hline, hbrackets] at h
        obtain ⟨tail, htail, rfl⟩ := except_map_eq_ok h
        refine ⟨_, _, _, tail, .ending hnewline hline hbrackets, ?_, ?_⟩
        · rw [hbrackets]
          exact htail
        · obtain ⟨token, span⟩ := lexeme
          simp only at hnewline
          subst hnewline
          rfl
      | cons b bs =>
        simp only [hline, hbrackets] at h
        exact ⟨state, [], [], stream, .inner hnewline (by simp [hbrackets]), h, rfl⟩
  · rename_i hother
    cases hline : state.line? with
    | none =>
      simp only [State.begin?, hline] at h
      cases hindent : reindent? state.indents (width (lineHead cs lexeme.span.start)) with
      | none => simp [hindent] at h
      | some found =>
        obtain ⟨indents, marks⟩ := found
        simp only [hindent, Option.map_some] at h
        cases hbrackets : matchBrackets state.brackets lexeme with
        | error fault => simp [hbrackets] at h
        | ok brackets =>
          simp only [hbrackets] at h
          obtain ⟨tail, htail, rfl⟩ := except_map_eq_ok h
          exact ⟨_, _, _, tail, .first hother hline hindent hbrackets, htail,
            by simp [TokenStream.prepend, TokenStream.cons]⟩
    | some line =>
      simp only [State.begin?, hline] at h
      cases hbrackets : matchBrackets state.brackets lexeme with
      | error fault => simp [hbrackets] at h
      | ok brackets =>
        simp only [hbrackets] at h
        obtain ⟨tail, htail, rfl⟩ := except_map_eq_ok h
        refine ⟨_, _, _, tail, .further hother hline hbrackets, ?_, rfl⟩
        simpa [State.noteLast, hline] using htail

theorem run_steps {lexemes : List Lexeme} : ∀ {state : State} {stream : TokenStream},
    run cs table state lexemes = .ok stream →
      ∃ last out lines rest, Steps cs table state lexemes last out lines ∧
        finish table.size last = .ok rest ∧ stream = ⟨out ++ rest.tokens, lines ++ rest.lines⟩ := by
  induction lexemes with
  | nil =>
    intro state stream h
    exact ⟨state, [], [], stream, .nil, h, rfl⟩
  | cons lexeme lexemes ih =>
    intro state stream h
    obtain ⟨next, more, ended, tail, hstep, htail, rfl⟩ := run_cons h
    obtain ⟨last, out, lines, rest, hsteps, hfinish, rfl⟩ := ih htail
    exact ⟨last, more ++ out, ended ++ lines, rest, hsteps.cons hstep, hfinish,
      by simp [List.append_assoc]⟩

/-! ### What the steps are made of -/

/-- A run can end only with every bracket closed; it then closes its last line and
every open block. -/
theorem finish_cases {size : Nat} {state : State} {stream : TokenStream}
    (h : finish size state = .ok stream) : state.brackets = [] ∧ ((state.line? = none ∧
          stream = ⟨List.replicate state.indents.length ⟨.dedent, .point size⟩, []⟩) ∨
        ∃ line, state.line? = some line ∧ stream = ⟨⟨.newline, .point size⟩ ::
            List.replicate state.indents.length ⟨.dedent, .point size⟩, [line]⟩) := by
  unfold finish at h
  split at h
  · simp at h
  · rename_i hbrackets
    simp only at h
    split at h
    · rename_i line hline
      cases h
      exact ⟨hbrackets, Or.inr ⟨line, hline, rfl⟩⟩
    · rename_i hline
      cases h
      exact ⟨hbrackets, Or.inl ⟨hline, rfl⟩⟩

/-- How a line stands to the open levels, and what is put before it. -/
theorem reindent?_deeper_or_back {indents kept : List Nat} {w : Nat} {marks : List Token}
    (h : reindent? indents w = some (kept, marks)) :
    (indents.headD 0 < w ∧ kept = w :: indents ∧ marks = [.indent]) ∨
      (w ≤ indents.headD 0 ∧ kept = indents.dropWhile (w < ·) ∧ kept.headD 0 = w ∧
        marks = List.replicate (indents.length - kept.length) .dedent) := by
  unfold reindent? at h
  simp only at h
  split at h
  · rename_i hdeeper
    cases h
    exact Or.inl ⟨hdeeper, rfl, rfl⟩
  · rename_i hback
    split at h
    · rename_i hlevel
      cases h
      exact Or.inr ⟨Nat.le_of_not_lt hback, rfl, hlevel, rfl⟩
    · simp at h

/-- A line opens one block, or leaves some number of them. -/
theorem reindent?_cases {indents kept : List Nat} {width : Nat} {marks : List Token}
    (h : reindent? indents width = some (kept, marks)) :
    (kept = width :: indents ∧ marks = [.indent]) ∨
      ∃ left, left ≤ indents.length ∧ kept.length + left = indents.length ∧
        marks = List.replicate left .dedent := by
  rcases reindent?_deeper_or_back h with ⟨-, hkept, hmarks⟩ | ⟨-, rfl, -, rfl⟩
  · exact Or.inl ⟨hkept, hmarks⟩
  · have hle := (List.dropWhile_suffix (l := indents) (width < ·)).length_le
    exact Or.inr ⟨_, Nat.sub_le _ _, by omega, rfl⟩

/-- Brackets are opened and closed innermost first. -/
theorem matchBrackets_cases {brackets next : List (Bracket × Span)} {lexeme : Lexeme}
    (h : matchBrackets brackets lexeme = .ok next) :
    (∃ b, lexeme.token = .symbol (.opening b) ∧ next = (b, lexeme.span) :: brackets) ∨
      (∃ b span, lexeme.token = .symbol (.closing b) ∧ brackets = (b, span) :: next) ∨
      ((∀ b, lexeme.token ≠ .symbol (.opening b) ∧ lexeme.token ≠ .symbol (.closing b)) ∧
        next = brackets) := by
  unfold matchBrackets at h
  split at h
  · rename_i b htoken
    cases h
    exact Or.inl ⟨b, htoken, rfl⟩
  · rename_i b htoken
    split at h
    · simp at h
    · rename_i inner span rest
      split at h
      · rename_i hsame
        cases h
        exact Or.inr (Or.inl ⟨b, span, htoken, by rw [hsame]⟩)
      · simp at h
  · rename_i hopening hclosing
    cases h
    exact Or.inr (Or.inr ⟨fun b => ⟨hopening b, hclosing b⟩, rfl⟩)

/-- While a bracket is open a line is in progress. -/
theorem Steps.line_of_open {read out : List Lexeme} {start state : State}
    {lines : List LogicalLine} (h : Steps cs table start read state out lines)
    (hstart : start.brackets ≠ [] → start.line? ≠ none) :
    state.brackets ≠ [] → state.line? ≠ none := by
  induction h with
  | nil => exact hstart
  | snoc hsteps hstep ih =>
    cases hstep with
    | blank hnewline hline => exact ih
    | inner hnewline hopen => exact ih
    | ending hnewline hline hclosed => exact fun hopen => absurd hclosed hopen
    | first hother hline hindent hbrackets => simp
    | further hother hline hbrackets => simp

end Layout

/-! ### A token stream is laid out from a scan -/

/-- **A text that has a token stream has a scan, and the layout took it step by step.** -/
theorem tokenize_steps {source : String} {stream : TokenStream} (h : tokenize source = .ok stream) :
    ∃ lexemes last out lines rest, scan source.toList = .ok lexemes ∧
      Layout.Steps source.toList (LineTable.ofText source.toList) .initial lexemes last out lines ∧
      Layout.finish (byteLength source.toList) last = .ok rest ∧
      stream = ⟨out ++ rest.tokens, lines ++ rest.lines⟩ := by
  unfold tokenize at h
  simp only at h
  split at h
  · simp at h
  · rename_i lexemes hscan
    split at h
    · simp at h
    · rename_i laid hrun
      cases h
      obtain ⟨last, out, lines, rest, hsteps, hfinish, hstream⟩ := Layout.run_steps hrun
      exact ⟨lexemes, last, out, lines, rest, hscan, hsteps, hfinish, hstream⟩

end Scrutiny
