/-
Two texts with the same layout.

Of a token the layout looks at three things: what it is, what stands before it on its line,
and which line that is.  Of two texts whose tokens agree in these, up to a renumbering of the
lines, the one is laid out as the other (`run_resembles`): with the same tokens and marks, and
with the same logical lines under their new numbers.

The second text may have more newlines than the first, behind newlines that both have
(`Padded`).  Right behind a newline another one changes nothing, whether a line has just ended
or a bracket is open.
-/
import Mathlib.Data.List.Forall2
import Scrutiny.Proofs.Token.Rendering

namespace Scrutiny

variable {stream : TokenStream} {x : Lexeme} {xs xs' : List Lexeme}

/-- A logical line under another number. -/
def LogicalLine.renumber (f : Nat → Nat) (line : LogicalLine) : LogicalLine :=
  { line with line := f line.line }

/-- A token of one text looks like one of another, whose lines have other numbers. -/
structure Lexeme.Resembles (cs cs' : List Char) (f : Nat → Nat) (x x' : Lexeme) : Prop where
  token : x'.token = x.token
  head : lineHead cs' x'.span.start = lineHead cs x.span.start
  line : (LineTable.ofText cs').line x'.span.start = f ((LineTable.ofText cs).line x.span.start)

/-- Tokens that are related one by one, with more newlines behind some newlines. -/
inductive Padded (R : Lexeme → Lexeme → Prop) : List Lexeme → List Lexeme → Prop
  | nil : Padded R [] []
  | cons {x x' : Lexeme} {xs xs' : List Lexeme} (hx : R x x') (hxs : Padded R xs xs') :
      Padded R (x :: xs) (x' :: xs')
  | newline {x x' extra : Lexeme} {xs xs' : List Lexeme} (hx : R x x')
      (hnewline : x.token = .newline) (hextra : extra.token = .newline) (hxs : Padded R xs xs') :
      Padded R (x :: xs) (x' :: extra :: xs')

theorem Padded.of_forall₂ {R : Lexeme → Lexeme → Prop}
    (h : List.Forall₂ R xs xs') : Padded R xs xs' := by
  induction h with
  | nil => exact .nil
  | cons hx _ ih => exact .cons hx ih

theorem Padded.append {R : Lexeme → Lexeme → Prop} {ys ys' : List Lexeme}
    (hxs : List.Forall₂ R xs xs') (hys : Padded R ys ys') : Padded R (xs ++ ys) (xs' ++ ys') := by
  induction hxs with
  | nil => exact hys
  | cons hx _ ih => exact .cons hx ih

namespace Layout

variable {cs cs' : List Char} {f : Nat → Nat} {state state' : State}

/-- Two states that differ in where brackets stand and in line numbers. -/
structure State.Resembles (f : Nat → Nat) (state state' : State) : Prop where
  indents : state'.indents = state.indents
  brackets : state'.brackets.map Prod.fst = state.brackets.map Prod.fst
  line : state'.line? = state.line?.map (LogicalLine.renumber f)

namespace State.Resembles

theorem initial (f : Nat → Nat) : State.Resembles f .initial .initial := ⟨rfl, rfl, rfl⟩

variable (h : State.Resembles f state state')

include h

theorem line_none (hline : state.line? = none) : state'.line? = none := by
  rw [h.line, hline]
  rfl

theorem line_some {line : LogicalLine}
    (hline : state.line? = some line) : state'.line? = some (line.renumber f) := by
  rw [h.line, hline]
  rfl

theorem closed_iff : state'.brackets = [] ↔ state.brackets = [] := by
  rw [← List.map_eq_nil_iff, h.brackets, List.map_eq_nil_iff]

theorem matched {x' : Lexeme} (htoken : x'.token = x.token)
    {brackets : List (Bracket × Span)} (hmatch : matchBrackets state.brackets x = .ok brackets) :
    ∃ brackets', matchBrackets state'.brackets x' = .ok brackets' ∧
      brackets'.map Prod.fst = brackets.map Prod.fst := by
  have hnests := matchBrackets_nests hmatch
  rw [← htoken] at hnests
  exact matchBrackets_of_nests hnests h.brackets

end State.Resembles

/-- One step of the layout, in the text that resembles. -/
theorem Step.resembles {next : State} {x' : Lexeme} {more : List Lexeme}
    {ended : List LogicalLine} (h : Step cs (.ofText cs) state x next more ended)
    (hx : x.Resembles cs cs' f x') (hstate : State.Resembles f state state') :
    ∃ next' more', Step cs' (.ofText cs') state' x' next' more' (ended.map (·.renumber f)) ∧
      State.Resembles f next next' ∧ more'.map Lexeme.token = more.map Lexeme.token := by
  cases h with
  | blank hnewline hline =>
    exact ⟨state', [], .blank (hx.token.trans hnewline) (hstate.line_none hline), hstate, rfl⟩
  | inner hnewline hopen =>
    exact ⟨state', [], .inner (hx.token.trans hnewline) (hstate.closed_iff.not.mpr hopen), hstate,
      rfl⟩
  | ending hnewline hline hclosed =>
    refine ⟨{ state' with line? := none }, [x'], ?_, ⟨hstate.indents, hstate.brackets, rfl⟩, ?_⟩
    · exact .ending (hx.token.trans hnewline) (hstate.line_some hline)
        (hstate.closed_iff.mpr hclosed)
    · simp [hx.token]
  | @first indents marks brackets hother hline hindent hbrackets =>
    have hother' : x'.token ≠ .newline := by rwa [hx.token]
    obtain ⟨brackets', hbrackets', hsame⟩ := hstate.matched hx.token hbrackets
    have hindent' : reindent? state'.indents (width (lineHead cs' x'.span.start))
        = some (indents, marks) := by
      rw [hstate.indents, hx.head, hindent]
    refine ⟨_, _, .first hother' (hstate.line_none hline) hindent' hbrackets', ⟨rfl, hsame, ?_⟩, ?_⟩
    · simp only [Option.map_some, LogicalLine.renumber, hx.line, hx.head, hx.token]
    · simp [Function.comp_def, hx.token]
  | @further line brackets hother hline hbrackets =>
    have hother' : x'.token ≠ .newline := by rwa [hx.token]
    obtain ⟨brackets', hbrackets', hsame⟩ := hstate.matched hx.token hbrackets
    refine ⟨_, _, .further hother' (hstate.line_some hline) hbrackets',
      ⟨hstate.indents, hsame, ?_⟩, ?_⟩
    · simp only [Option.map_some, LogicalLine.renumber, hx.token]
    · simp [hx.token]

/-- Behind a newline another newline is dropped. -/
theorem Step.newline_again {table : LineTable} {next : State} {extra : Lexeme} {more : List Lexeme}
    {ended : List LogicalLine} (h : Step cs table state x next more ended)
    (hnewline : x.token = .newline) (hextra : extra.token = .newline) :
    Step cs table next extra next [] [] := by
  cases h with
  | blank _ hline => exact .blank hextra hline
  | inner _ hopen => exact .inner hextra hopen
  | ending => exact .blank hextra rfl
  | first hother | further hother => exact absurd hnewline hother

theorem finish_resembles {size size' : Nat} (hstate : State.Resembles f state state')
    (h : finish size state = .ok stream) : ∃ stream', finish size' state' = .ok stream' ∧
      stream'.tokens.map Lexeme.token = stream.tokens.map Lexeme.token ∧
      stream'.lines = stream.lines.map (·.renumber f) := by
  obtain ⟨hclosed, hcases⟩ := finish_cases h
  have hclosed' := hstate.closed_iff.mpr hclosed
  rcases hcases with ⟨hline, rfl⟩ | ⟨line, hline, rfl⟩
  · refine ⟨⟨List.replicate state.indents.length ⟨.dedent, .point size'⟩, []⟩, ?_, by simp, rfl⟩
    simp only [finish, hclosed', hstate.line_none hline, hstate.indents]
  · refine ⟨.consLine (line.renumber f) (.point size')
      ⟨List.replicate state.indents.length ⟨.dedent, .point size'⟩, []⟩, ?_, ?_, rfl⟩
    · simp only [finish, hclosed', hstate.line_some hline, hstate.indents]
    · simp [TokenStream.consLine]

/-- **Texts that resemble each other are laid out alike.** -/
theorem run_resembles (hxs : Padded (Lexeme.Resembles cs cs' f) xs xs')
    (hstate : State.Resembles f state state') (h : run cs (.ofText cs) state xs = .ok stream) :
    ∃ stream', run cs' (.ofText cs') state' xs' = .ok stream' ∧
      stream'.tokens.map Lexeme.token = stream.tokens.map Lexeme.token ∧
      stream'.lines = stream.lines.map (·.renumber f) := by
  induction hxs generalizing state state' stream with
  | nil => exact finish_resembles hstate h
  | cons hx _ ih =>
    obtain ⟨next, more, ended, tail, hstep, htail, rfl⟩ := run_cons h
    obtain ⟨next', more', hstep', hnext, hmore⟩ := hstep.resembles hx hstate
    obtain ⟨tail', htail', htokens, hlines⟩ := ih hnext htail
    refine ⟨put more' (ended.map (·.renumber f)) tail', ?_, ?_, ?_⟩
    · rw [run_of_step hstep', htail']
      rfl
    · simp [put, hmore, htokens]
    · simp [put, hlines]
  | newline hx hnewline hextra _ ih =>
    obtain ⟨next, more, ended, tail, hstep, htail, rfl⟩ := run_cons h
    obtain ⟨next', more', hstep', hnext, hmore⟩ := hstep.resembles hx hstate
    obtain ⟨tail', htail', htokens, hlines⟩ := ih hnext htail
    refine ⟨put more' (ended.map (·.renumber f)) tail', ?_, ?_, ?_⟩
    · have hagain := hstep'.newline_again (hx.token.trans hnewline) hextra
      rw [run_of_step hstep', run_of_step hagain, map_put_nil, htail']
      rfl
    · simp [put, hmore, htokens]
    · simp [put, hlines]

end Layout

/-- The same for the token streams of two texts. -/
theorem tokenize_resembles {source other : String} {f : Nat → Nat}
    {lexemes lexemes' : List Lexeme} (h : tokenize source = .ok stream)
    (hscan : scan source.toList = .ok lexemes) (hscan' : scan other.toList = .ok lexemes')
    (hsame : Padded (Lexeme.Resembles source.toList other.toList f) lexemes lexemes') :
    ∃ again, tokenize other = .ok again ∧
      again.tokens.map Lexeme.token = stream.tokens.map Lexeme.token ∧
      again.lines = stream.lines.map (·.renumber f) := by
  obtain ⟨found, hfound, hrun⟩ := tokenize_run h
  obtain rfl : lexemes = found := by simpa using hscan.symm.trans hfound
  obtain ⟨again, hagain, htokens, hlines⟩ := Layout.run_resembles hsame (.initial f) hrun
  exact ⟨again, by simp only [tokenize, hscan', hagain], htokens, hlines⟩

end Scrutiny
