/-
Parsing is compositional.

Two texts that can be parsed can be parsed in a row, if the first ends with the end of a
line, and the statements of the whole are those of the first and then those of the
second (`parse_append`).  Nothing of the second goes to the statements of the first: a
token stream closes all its blocks, so what is left over at the seam is `Stretch`es of
complete lines, and a text that can be parsed does not begin with an indent or with a
clause of a statement begun before (`moduleUpTo_fresh`).

The main step, `LineEndsAt.moduleUpTo_joined`, is said of any second text that has a
token stream, because it also decides how a text fails that cannot be parsed.
-/
import Scrutiny.Proofs.Grammar.Joining
import Scrutiny.Proofs.Grammar.StmtLeaves
import Scrutiny.Proofs.Syntax.Visits
import Scrutiny.Proofs.Token.Joining

namespace Scrutiny

variable {source : String} {state : State} {tail : List Lexeme}

/-! ### Token streams are stretches -/

theorem Stretch.dedents {depth k : Nat} {dedents : List Lexeme} (h : Stretch depth false tail)
    (hdedents : dedents.map Lexeme.token = List.replicate k .dedent) :
    Stretch (depth + k) false (dedents ++ tail) := by
  induction k generalizing dedents with
  | zero =>
    obtain rfl : dedents = [] := by simpa using hdedents
    exact h
  | succ k ih =>
    cases dedents with
    | nil => simp at hdedents
    | cons x dedents =>
      rw [List.map_cons, List.replicate_succ, List.cons.injEq] at hdedents
      exact .dedent hdedents.1 (ih hdedents.2)

namespace Layout

variable {cs : List Char} {table : LineTable}

theorem Step.stretch {next : State} {lexeme : Lexeme} {more : List Lexeme}
    {ended : List LogicalLine} (h : Step cs table state lexeme next more ended)
    (hlexeme : lexeme.token ≠ .indent ∧ lexeme.token ≠ .dedent)
    (htail : Stretch next.indents.length next.line?.isSome tail) :
    Stretch state.indents.length state.line?.isSome (more ++ tail) := by
  cases h with
  | blank hnewline hline => exact htail
  | inner hnewline hopen => exact htail
  | ending hnewline hline hclosed =>
    rw [hline]
    exact .newline hnewline htail
  | further hother hline hbrackets =>
    rw [hline]
    exact .plain (isMark_eq_false hother hlexeme) htail
  | @first indents marks brackets hother hline hindent hbrackets =>
    rw [hline, List.append_assoc]
    have hplain : Stretch indents.length true tail := htail
    rcases reindent?_cases hindent with ⟨rfl, rfl⟩ | ⟨left, -, hlength, rfl⟩
    · exact .indent rfl (.plain (isMark_eq_false hother hlexeme) hplain)
    · rw [← hlength]
      refine Stretch.dedents (.plain (isMark_eq_false hother hlexeme) hplain) ?_
      simp

/-- What has been put out can be followed by what is due in the state reached. -/
theorem Steps.stretch {read out : List Lexeme} {lines : List LogicalLine}
    (h : Steps cs table .initial read state out lines) (hread : Scanned cs read)
    (htail : Stretch state.indents.length state.line?.isSome tail) :
    Stretch 0 false (out ++ tail) := by
  induction h generalizing tail with
  | nil => exact htail
  | snoc hsteps hstep ih =>
    rw [List.append_assoc]
    exact ih hread.init (hstep.stretch hread.last.token_ne htail)

theorem finish_stretch {size : Nat} {rest : TokenStream} (h : finish size state = .ok rest) :
    Stretch state.indents.length state.line?.isSome rest.tokens := by
  have hdedents : Stretch (0 + state.indents.length) false
      (List.replicate state.indents.length ⟨.dedent, .point size⟩ ++ []) :=
    Stretch.dedents .done (by simp)
  rw [Nat.zero_add, List.append_nil] at hdedents
  obtain ⟨-, ⟨hline, rfl⟩ | ⟨line, hline, rfl⟩⟩ := finish_cases h
  · rw [hline]
    exact hdedents
  · rw [hline]
    exact .newline rfl hdedents

end Layout

/-- **A token stream is a stretch**: whole lines, in blocks that are all closed. -/
theorem tokenize_stretch {stream : TokenStream} (h : tokenize source = .ok stream) :
    Stretch 0 false stream.tokens := by
  obtain ⟨lexemes, last, out, lines, rest, hscan, hsteps, hfinish, rfl⟩ := tokenize_steps h
  exact hsteps.stretch (scan_scanned hscan) (Layout.finish_stretch hfinish)

/-! ### Beginnings -/

namespace Grammar

/-- Where no line starts, no module does but the empty one. -/
theorem moduleUpTo_idle (n : Nat) {tokens : List Lexeme}
    (h : (Cursor.start tokens).Faces Token.isIdle) :
    moduleUpTo n (.start tokens)
      = if tokens = [] then ⟨0, some (⟨[]⟩, .start tokens)⟩ else ⟨0, none⟩ := by
  have hreject : moduleLine n (.start tokens) = ⟨0, none⟩ := moduleLine_rejects n h
  have hmany := Parser.manyWithin_of_none (congrArg Reply.result hreject) tokens
  have hmodule := moduleUpTo_eq (c := .start tokens) (congrArg Reply.result hmany)
  have hfar : (Parser.manyWithin (moduleLine n) tokens (.start tokens)).far = 0 := by
    rw [hmany, hreject]
  refine hmodule.trans ?_
  change (if tokens = [] then
      (⟨(Parser.manyWithin (moduleLine n) tokens (.start tokens)).far, some (⟨[]⟩, .start tokens)⟩ :
        Reply Module)
    else ⟨max (Parser.manyWithin (moduleLine n) tokens (.start tokens)).far 0, none⟩) = _
  rw [hfar]
  rfl

theorem moduleUpTo_nil (n : Nat) : moduleUpTo n (.start []) = ⟨0, some (⟨[]⟩, .start [])⟩ :=
  moduleUpTo_idle n (by simp [Cursor.Faces, Cursor.start])

/-- A module that can be begun does not begin with a token that goes on a statement. -/
theorem moduleUpTo_fresh {n : Nat} {tokens : List Lexeme}
    (h : moduleUpTo n (.start tokens) ≠ ⟨0, none⟩) :
    ∀ x ∈ tokens.head?, x.token.continuesStmt = false := by
  intro x hx
  cases tokens with
  | nil => simp at hx
  | cons y tokens =>
    obtain rfl : y = x := by simpa using hx
    by_contra hcontinues
    refine h (moduleUpTo_idle n ?_)
    simpa [Cursor.Faces, Cursor.start] using
      Token.isIdle_of_continuesStmt (Bool.eq_true_of_not_eq_false hcontinues)

end Grammar

/-- A text that can be parsed assigns to what can be assigned to. -/
theorem parse_targetFault? {module : Module} (h : parse source = .ok module) :
    module.targetFault? = none := by
  obtain ⟨stream, -, hmodule⟩ := parse_eq_ok.mp h
  exact (parseTokens_eq_ok.mp hmodule).2

/-- A text that can be parsed begins at the margin. -/
theorem startsAtMargin_of_parse {module : Module} (h : parse source = .ok module) :
    StartsAtMargin source.toList := by
  obtain ⟨stream, last, hstream, hread⟩ := parse_cases h
  intro x hx
  by_contra hwidth
  have hhead := tokenize_head hstream
  rw [Option.mem_def.mp hx, Option.map_some, if_neg hwidth] at hhead
  have hfresh := Grammar.moduleUpTo_fresh (n := stream.tokens.length)
    (fun hnone => by simp [hnone] at hread) _ hhead
  simp [Token.continuesStmt] at hfresh

/-! ### The two texts in a row -/

/-- The tokens of the whole are read as the first text and then as the second. -/
theorem LineEndsAt.moduleUpTo_joined {more : String} {first : Module} {second : TokenStream}
    (hcut : LineEndsAt (source ++ more).toList (byteLength source.toList))
    (hfirst : parse source = .ok first) (hmargin : StartsAtMargin more.toList)
    (hsecond : tokenize more = .ok second)
    (hfresh : ∀ x ∈ second.tokens.head?, x.token.continuesStmt = false) {u v : Nat → Nat}
    (huv : ∀ k, u k = v (k + byteLength source.toList)) :
    ∃ front stream stmts, tokenize (source ++ more) = .ok stream ∧
      stream.tokens = front ++ second.tokens.map (Lexeme.shift (byteLength source.toList)) ∧
      stmts.map Stmt.bare = first.body.map Stmt.bare ∧
      Grammar.Joined (.moved u v front.length) stmts
        (Grammar.moduleUpTo second.tokens.length (.start second.tokens))
        (Grammar.moduleUpTo stream.tokens.length (.start stream.tokens)) := by
  obtain ⟨stream₁, last, hstream₁, hread⟩ := parse_cases hfirst
  obtain ⟨front, stream, htokens, hstream, hcat⟩ :=
    tokenize_append_ok hcut hstream₁ hmargin hsecond
  have hlength : front.length = stream₁.tokens.length := by
    simpa using congrArg List.length htokens
  have hsame : List.Forall₂ (fun x y => x.token = y.token) stream₁.tokens front := by
    have heq : List.Forall₂ Eq (stream₁.tokens.map Lexeme.token) (front.map Lexeme.token) := by
      rw [htokens]
      exact List.forall₂_refl _
    rwa [List.forall₂_map_left_iff, List.forall₂_map_right_iff] at heq
  have halike : List.Forall₂ (Pairing.Alike (.moved u v front.length)) second.tokens
      (second.tokens.map (Lexeme.shift (byteLength source.toList))) := by
    rw [List.forall₂_map_right_iff]
    refine List.forall₂_same.mpr fun x _ => ⟨rfl, ?_⟩
    simp [Pairing.moved, Recast.respan, Span.respan, Lexeme.shift, huv]
  obtain ⟨stmts, hbare, hjoined⟩ := Grammar.moduleUpTo_joined (.moved (u := u) (v := v)) hlength
    (tokenize_stretch hstream₁) (tokenize_stretch hsecond) hsame halike hfresh hread
  refine ⟨front, stream, stmts, hstream, hcat, hbare, ?_⟩
  rw [hcat]
  exact hjoined

theorem Module.targetFault?_bare {body body' : List Stmt}
    (h : body'.map Stmt.bare = body.map Stmt.bare)
    (hnone : (⟨body⟩ : Module).targetFault? = none) : (⟨body'⟩ : Module).targetFault? = none := by
  have h : body'.map (Recast.respan fun _ => 0).stmt = body.map (Recast.respan fun _ => 0).stmt := h
  have hmoved := Module.targetFault?_recast (.respan fun _ => 0) body'
  rw [h, Module.targetFault?_recast, hnone, Option.map_none] at hmoved
  exact Option.map_eq_none_iff.mp hmoved.symm

/-- **Parsing is compositional.** -/
theorem parse_append {source more : String} {first second : Module}
    (hfirst : parse source = .ok first) (hsecond : parse more = .ok second)
    (hcut : LineEndsAt (source ++ more).toList (byteLength source.toList)) :
    ∃ whole, parse (source ++ more) = .ok whole ∧
      whole.body.map Stmt.bare = first.body.map Stmt.bare ++ second.body.map Stmt.bare := by
  obtain ⟨stream₂, last, hstream₂, hread⟩ := parse_cases hsecond
  have hfresh : ∀ x ∈ stream₂.tokens.head?, x.token.continuesStmt = false :=
    Grammar.moduleUpTo_fresh (n := stream₂.tokens.length) fun hnone => by simp [hnone] at hread
  obtain ⟨front, stream, stmts, hstream, -, hbare, hjoined⟩ := hcut.moduleUpTo_joined hfirst
    (startsAtMargin_of_parse hsecond) hstream₂ hfresh (u := fun _ => 0) (v := fun _ => 0)
    fun _ => rfl
  obtain ⟨rest, last', hwhole, hrest⟩ := hjoined.reads second last hread
  refine ⟨⟨stmts ++ rest⟩, ?_, ?_⟩
  · have htarget : (⟨stmts ++ rest⟩ : Module).targetFault? = none := by
      rw [Module.targetFault?_append, Module.targetFault?_bare hbare (parse_targetFault? hfirst),
        Module.targetFault?_bare hrest.symm (parse_targetFault? hsecond)]
      rfl
    simp only [parse, hstream, parseTokens, hwhole, htarget]
  · rw [List.map_append, hbare]
    exact congrArg _ hrest.symm

/-- A block that the first text leaves open, and a first text that ends in a blank line. -/
theorem parse_append_blocks :
    ∃ whole first second, parse "if a:\n  b = 1\n\n" = .ok first ∧
      parse "def f():\n  pass" = .ok second ∧
      parse ("if a:\n  b = 1\n\n" ++ "def f():\n  pass") = .ok whole ∧
      whole.body.map Stmt.bare = first.body.map Stmt.bare ++ second.body.map Stmt.bare := by
  have hfirst : (parse "if a:\n  b = 1\n\n").toOption.isSome = true := by decide +kernel
  have hsecond : (parse "def f():\n  pass").toOption.isSome = true := by decide +kernel
  cases h₁ : parse "if a:\n  b = 1\n\n" with
  | error e => simp [h₁, Except.toOption] at hfirst
  | ok first =>
    cases h₂ : parse "def f():\n  pass" with
    | error e => simp [h₂, Except.toOption] at hsecond
    | ok second =>
      obtain ⟨whole, hwhole, hbody⟩ := parse_append h₁ h₂ (by decide +kernel)
      exact ⟨whole, first, second, rfl, rfl, hwhole, hbody⟩

end Scrutiny
