/-
The token stream of two texts put together.

If a line of the whole ends where the first text does, then the whole is scanned as
its halves are (`LineEndsAt.cut`), and its layout takes the tokens of the second half
from where the first left it.  At that point every line is ended, every bracket closed
and only blocks may be open; a first token at the margin closes those, and from there
on the layout does what it does for the second text alone (`run_shift`), only further
back.

So the tokens are those of the first text, with its last dedents moved, and then those
of the second (`tokenize_append_ok`); and what is wrong with the second text is wrong
with the whole (`tokenize_append_error`).
-/
import Scrutiny.Proofs.Syntax.Respan
import Scrutiny.Proofs.Token.Locality
import Scrutiny.Proofs.Token.Steps

namespace Scrutiny

variable {d : Nat} {ended lines : List LogicalLine} {fault : TokenFault}
  {first more out read : List Lexeme} {indents : List Nat} {last next start state : State}
  {lexeme : Lexeme} {stream : TokenStream}

/-! ### Moved tokens and faults -/

/-- A token `d` bytes further back. -/
def Lexeme.shift (d : Nat) (lexeme : Lexeme) : Lexeme :=
  ⟨lexeme.token, lexeme.span.respan (· + d)⟩

@[simp] theorem Lexeme.shift_token (d : Nat) (lexeme : Lexeme) :
    (lexeme.shift d).token = lexeme.token := rfl

@[simp] theorem Lexeme.shift_start (d : Nat) (lexeme : Lexeme) :
    (lexeme.shift d).span.start = lexeme.span.start + d := rfl

/-- A fault `n` lines further down. -/
def TokenFault.lower (n : Nat) : TokenFault → TokenFault
  | .unclosedTriple line => .unclosedTriple (line + n)
  | .unclosedQuote line => .unclosedQuote (line + n)
  | fault => fault

/-- An error `d` bytes further back and `n` lines further down. -/
def TokenError.shift (d n : Nat) (error : TokenError) : TokenError :=
  ⟨error.fault.lower n, error.span.respan (· + d)⟩

/-! ### The scan -/

theorem lexemesFrom_append (offset : Nat) (ps qs : List Piece) : lexemesFrom offset (ps ++ qs)
      = lexemesFrom offset ps ++ lexemesFrom (offset + byteLength (ps.flatMap Piece.chars)) qs := by
  induction ps generalizing offset with
  | nil => simp [lexemesFrom]
  | cons p ps ih =>
    obtain ⟨kind, chars⟩ := p
    cases kind with
    | token t => simp [lexemesFrom, ih, Nat.add_assoc]
    | gap | fault => simp [lexemesFrom, ih, Nat.add_assoc]

theorem lexemesFrom_shift (offset d : Nat) (ps : List Piece) :
    lexemesFrom (offset + d) ps = (lexemesFrom offset ps).map (Lexeme.shift d) := by
  induction ps generalizing offset with
  | nil => rfl
  | cons p ps ih =>
    obtain ⟨kind, chars⟩ := p
    have hstop : offset + d + byteLength chars = offset + byteLength chars + d := by omega
    cases kind with
    | token t => simp only [lexemesFrom, hstop, ih, List.map_cons, Lexeme.shift, Span.respan]
    | gap | fault => simp only [lexemesFrom, hstop, ih]

theorem faultsFrom_append (offset : Nat) (ps qs : List Piece) : faultsFrom offset (ps ++ qs)
      = faultsFrom offset ps ++ faultsFrom (offset + byteLength (ps.flatMap Piece.chars)) qs := by
  induction ps generalizing offset with
  | nil => simp [faultsFrom]
  | cons p ps ih =>
    obtain ⟨kind, chars⟩ := p
    cases kind with
    | fault => simp [faultsFrom, ih, Nat.add_assoc]
    | gap | token t => simp [faultsFrom, ih, Nat.add_assoc]

theorem faultsFrom_shift (offset d : Nat) (ps : List Piece) : faultsFrom (offset + d) ps
      = (faultsFrom offset ps).map fun found => (found.1, found.2.respan (· + d)) := by
  induction ps generalizing offset with
  | nil => rfl
  | cons p ps ih =>
    obtain ⟨kind, chars⟩ := p
    have hstop : offset + d + byteLength chars = offset + byteLength chars + d := by omega
    cases kind with
    | fault => simp only [faultsFrom, hstop, ih, List.map_cons, Span.respan]
    | gap | token t => simp only [faultsFrom, hstop, ih]

variable {a b : List Char}

/-- The two characters before a place in the second half are quotes of one kind only
if both stand in that half, for the first ends with a newline. -/
theorem slice_quotes_shift (ha : EndsLine a) {c : Char} (hc : Quoted.isQuote c = true)
    (start : Nat) :
    sliceBytes? (a ++ b) ⟨start + byteLength a - 2, start + byteLength a⟩ = some [c, c]
      ↔ sliceBytes? b ⟨start - 2, start⟩ = some [c, c] := by
  by_cases hstart : 2 ≤ start
  · have hback : start + byteLength a - 2 = start - 2 + byteLength a := by omega
    rw [hback, sliceBytes?_shift]
  have hsize : byteLength [c, c] = 2 := by
    rcases (by simpa [Quoted.isQuote] using hc : c = '"' ∨ c = '\'') with rfl | rfl
    · rfl
    · rfl
  refine iff_of_false (fun h => ?_) (fun h => ?_)
  · obtain ⟨before, after, hcs, -, hstop⟩ := eq_of_sliceBytes? h
    obtain ⟨body, rfl⟩ := ha.eq_concat
    have hone : byteLength [c] = 1 := by
      simp only [byteLength_cons, byteLength_nil] at hsize ⊢
      omega
    have hnewline : byteLength ['\n'] = 1 := rfl
    rw [hsize, byteLength_append, hnewline] at hstop
    -- One of the two stands where the newline does.
    have hat : c = '\n' := by
      rcases Nat.lt_or_ge start 1 with hzero | hpos
      · have hsplit : (before ++ [c]) ++ (c :: after)
            = body ++ ('\n' :: b) := by simpa using hcs.symm
        have hsame : byteLength (before ++ [c]) = byteLength body := by
          rw [byteLength_append, hone]
          omega
        exact (List.cons.inj (eq_of_byteLength_eq hsplit hsame).2).1
      · have hsplit : before ++ (c :: c :: after) = body ++ ('\n' :: b) := by simpa using hcs.symm
        exact (List.cons.inj (eq_of_byteLength_eq hsplit (by omega)).2).1
    exact Quoted.isQuote_ne_newline hc hat
  · obtain ⟨before, after, -, -, hstop⟩ := eq_of_sliceBytes? h
    omega

theorem TokenFault.ofPiece_shift (ha : EndsLine a) (b chars : List Char) (start : Nat) :
    TokenFault.ofPiece (a ++ b) (.ofText (a ++ b)) chars (start + byteLength a)
      = (TokenFault.ofPiece b (.ofText b) chars start).lower (a.count '\n') := by
  cases chars with
  | nil => rfl
  | cons c chars =>
    unfold TokenFault.ofPiece
    simp only
    by_cases hquote : Quoted.isQuote c = true
    · simp only [hquote, if_true, slice_quotes_shift ha hquote, LineTable.line_shift ha]
      split
      · rfl
      · rfl
    · rw [if_neg hquote, if_neg hquote]
      split
      · rfl
      · split
        · rfl
        · rfl

/-- The pieces of the whole, in their places. -/
theorem LineEndsAt.scan_append (h : LineEndsAt (a ++ b) (byteLength a)) (ha : scan a = .ok first) :
    lexemesFrom 0 (pieces (a ++ b)) =
        first ++ (lexemesFrom 0 (pieces b)).map (Lexeme.shift (byteLength a)) ∧
      faultsFrom 0 (pieces (a ++ b)) =
        (faultsFrom 0 (pieces b)).map (fun found => (found.1, found.2.respan (· + byteLength a))) ∧
      ∃ front last, first = front ++ [last] ∧ last.token = .newline := by
  obtain ⟨hfaults, rfl⟩ := scan_pieces ha
  obtain ⟨hpieces, front, chars, hfront⟩ := h.cut (faultsFrom_eq_nil hfaults)
  refine ⟨?_, ?_, ?_⟩
  · rw [hpieces, lexemesFrom_append, pieces_chars, lexemesFrom_shift]
  · rw [hpieces, faultsFrom_append, pieces_chars, faultsFrom_shift, hfaults, List.nil_append]
  · rw [hfront, lexemesFrom_append]
    exact ⟨_, _, rfl, rfl⟩

theorem LineEndsAt.scan_ok {second : List Lexeme} (h : LineEndsAt (a ++ b) (byteLength a))
    (ha : scan a = .ok first) (hb : scan b = .ok second) :
    scan (a ++ b) = .ok (first ++ second.map (Lexeme.shift (byteLength a))) := by
  obtain ⟨hlexemes, hfaults, -⟩ := h.scan_append ha
  obtain ⟨hclean, rfl⟩ := scan_pieces hb
  unfold scan
  simp only [hfaults, hclean, hlexemes, List.map_nil]

theorem LineEndsAt.scan_error {errors : TokenErrors}
    (h : LineEndsAt (a ++ b) (byteLength a)) (ha : scan a = .ok first)
    (hb : scan b = .error errors) :
    ∃ more, scan (a ++ b) = .error ⟨errors.first.shift (byteLength a) (a.count '\n'), more⟩ := by
  obtain ⟨-, hfaults, -⟩ := h.scan_append ha
  unfold scan at hb ⊢
  simp only [hfaults] at hb ⊢
  cases hfound : faultsFrom 0 (pieces b) with
  | nil => simp [hfound] at hb
  | cons found more =>
    simp only [hfound, List.map_cons, Except.error.injEq] at hb ⊢
    subst hb
    refine ⟨_, (TokenErrors.mk.injEq ..).mpr ⟨?_, rfl⟩⟩
    exact (TokenError.mk.injEq ..).mpr ⟨TokenFault.ofPiece_shift h.endsLine b _ _, rfl⟩

namespace Layout

variable {cs : List Char} {table : LineTable}

/-! ### A run that may fail -/

/-- What stops the layout at a token. -/
inductive Stuck (cs : List Char) (state : State) (lexeme : Lexeme) : TokenFault → Prop
  /-- Its line goes back to no enclosing level. -/
  | uneven (hother : lexeme.token ≠ .newline) (hline : state.line? = none)
      (hindent : reindent? state.indents (width (lineHead cs lexeme.span.start)) = none) :
      Stuck cs state lexeme .unevenDedent
  /-- It closes what is not open. -/
  | bracket {fault : TokenFault} (hother : lexeme.token ≠ .newline)
      (hindent : state.line? = none →
        reindent? state.indents (width (lineHead cs lexeme.span.start)) ≠ none)
      (hbrackets : matchBrackets state.brackets lexeme = .error fault) :
      Stuck cs state lexeme fault

theorem step_or_stuck (cs : List Char) (table : LineTable) (state : State) (lexeme : Lexeme) :
    (∃ next more ended, Step cs table state lexeme next more ended) ∨
      ∃ fault, Stuck cs state lexeme fault := by
  by_cases hnewline : lexeme.token = .newline
  · refine Or.inl ?_
    cases hline : state.line? with
    | none => exact ⟨_, _, _, .blank hnewline hline⟩
    | some line =>
      by_cases hclosed : state.brackets = []
      · exact ⟨_, _, _, .ending hnewline hline hclosed⟩
      · exact ⟨_, _, _, .inner hnewline hclosed⟩
  · cases hline : state.line? with
    | none =>
      cases hindent : reindent? state.indents (width (lineHead cs lexeme.span.start)) with
      | none => exact Or.inr ⟨_, .uneven hnewline hline hindent⟩
      | some found =>
        cases hbrackets : matchBrackets state.brackets lexeme with
        | error fault => exact Or.inr ⟨fault, .bracket hnewline (by simp [hindent]) hbrackets⟩
        | ok brackets => exact Or.inl ⟨_, _, _, .first hnewline hline hindent hbrackets⟩
    | some line =>
      cases hbrackets : matchBrackets state.brackets lexeme with
      | error fault => exact Or.inr ⟨fault, .bracket hnewline (by simp [hline]) hbrackets⟩
      | ok brackets => exact Or.inl ⟨_, _, _, .further hnewline hline hbrackets⟩

/-- Put out some tokens and lines before a stream. -/
def put (more : List Lexeme) (ended : List LogicalLine) (stream : TokenStream) : TokenStream :=
  ⟨more ++ stream.tokens, ended ++ stream.lines⟩

theorem map_put_nil (result : Except TokenError TokenStream) : result.map (put [] []) = result := by
  cases result with
  | error e => rfl
  | ok stream => rfl

theorem run_of_step (h : Step cs table state lexeme next more ended) (rest : List Lexeme) :
    run cs table state (lexeme :: rest) = (run cs table next rest).map (put more ended) := by
  rw [run]
  cases h with
  | blank hnewline hline => rw [if_pos hnewline, hline, map_put_nil]
  | inner hnewline hopen =>
    rw [if_pos hnewline, map_put_nil]
    split
    · rename_i hclosed
      exact absurd hclosed hopen
    · rfl
  | ending hnewline hline hclosed =>
    rw [if_pos hnewline, hline, hclosed]
    obtain ⟨token, span⟩ := lexeme
    subst hnewline
    rfl
  | @first indents marks brackets hother hline hindent hbrackets =>
    rw [if_neg hother]
    simp only [State.begin?, hline, hindent, Option.map_some, hbrackets]
    congr 1
    funext stream
    simp [put, TokenStream.prepend, TokenStream.cons]
  | further hother hline hbrackets =>
    rw [if_neg hother]
    simp only [State.begin?, hline, hbrackets, State.noteLast, Option.map_some]
    rfl

theorem run_of_stuck (h : Stuck cs state lexeme fault) (rest : List Lexeme) :
    run cs table state (lexeme :: rest) = .error ⟨fault, lexeme.span⟩ := by
  rw [run]
  cases h with
  | uneven hother hline hindent =>
    rw [if_neg hother]
    simp only [State.begin?, hline, hindent, Option.map_none]
  | bracket hother hindent hbrackets =>
    rw [if_neg hother]
    cases hline : state.line? with
    | some line => simp only [State.begin?, hline, hbrackets]
    | none =>
      obtain ⟨found, hfound⟩ := Option.ne_none_iff_exists'.mp (hindent hline)
      simp only [State.begin?, hline, hfound, Option.map_some, hbrackets]

theorem run_of_steps (h : Steps cs table start read last out lines) (rest : List Lexeme) :
    run cs table start (read ++ rest) = (run cs table last rest).map (put out lines) := by
  induction h generalizing rest with
  | nil => rw [List.nil_append, map_put_nil]
  | snoc hsteps hstep ih =>
    rw [List.append_assoc, List.singleton_append, ih, run_of_step hstep]
    cases run cs table _ rest with
    | error e => rfl
    | ok stream => simp [Except.map, put]

/-! ### The first half -/

theorem Step.left (h : Step a (.ofText a) state lexeme next more ended)
    (b : List Char) (hplace : lexeme.span.start ≤ byteLength a) :
    Step (a ++ b) (.ofText (a ++ b)) state lexeme next more ended := by
  cases h with
  | blank hnewline hline => exact .blank hnewline hline
  | inner hnewline hopen => exact .inner hnewline hopen
  | ending hnewline hline hclosed => exact .ending hnewline hline hclosed
  | first hother hline hindent hbrackets =>
    rw [← LineTable.line_left b hplace, ← lineHead_left b hplace] at *
    exact .first hother hline hindent hbrackets
  | further hother hline hbrackets => exact .further hother hline hbrackets

/-- The layout of the first half does not look at the second. -/
theorem Steps.left (h : Steps a (.ofText a) start read last out lines) (b : List Char)
    (hplace : ∀ lexeme ∈ read, lexeme.span.start ≤ byteLength a) :
    Steps (a ++ b) (.ofText (a ++ b)) start read last out lines := by
  induction h with
  | nil => exact .nil
  | snoc hsteps hstep ih =>
    refine .snoc (ih fun lexeme hlexeme => hplace lexeme (by simp [hlexeme])) ?_
    exact hstep.left b (hplace _ (by simp))

theorem reindent?_pos {kept : List Nat} {width : Nat} {marks : List Token}
    (h : reindent? indents width = some (kept, marks)) (hpos : ∀ w ∈ indents, 0 < w) :
    ∀ w ∈ kept, 0 < w := by
  unfold reindent? at h
  simp only at h
  split at h
  · rename_i hdeeper
    simp only [Option.some.injEq, Prod.mk.injEq] at h
    rw [← h.1]
    intro w hw
    rcases List.mem_cons.mp hw with rfl | hw
    · omega
    · exact hpos w hw
  · split at h
    · simp only [Option.some.injEq, Prod.mk.injEq] at h
      rw [← h.1]
      intro w hw
      exact hpos w ((List.dropWhile_suffix _).subset hw)
    · simp at h

/-- Every open block is indented. -/
theorem Steps.indents_pos
    (h : Steps cs table .initial read state out lines) : ∀ w ∈ state.indents, 0 < w := by
  induction h with
  | nil => simp [State.initial]
  | snoc hsteps hstep ih =>
    cases hstep with
    | blank | inner | ending | further => exact ih
    | first hother hline hindent hbrackets => exact reindent?_pos hindent ih

/-- A line at the margin closes every block. -/
theorem reindent?_margin (hpos : ∀ w ∈ indents, 0 < w) :
    reindent? indents 0 = some ([], List.replicate indents.length .dedent) := by
  have hkept : indents.dropWhile (0 < ·) = [] := by
    rw [List.dropWhile_eq_nil_iff]
    simpa using hpos
  simp [reindent?, hkept]

theorem reindent?_deeper {width : Nat} (h : indents.headD 0 < width) :
    reindent? indents width = some (width :: indents, [.indent]) := by
  simp only [reindent?, if_pos h]

/-- After a newline, with every bracket closed, no line is in progress. -/
theorem Steps.line_of_newline {front : List Lexeme} {newline : Lexeme}
    (h : Steps cs table start (front ++ [newline]) last out lines)
    (hnewline : newline.token = .newline) (hclosed : last.brackets = []) : last.line? = none := by
  generalize hread : front ++ [newline] = read at h
  cases h with
  | nil => simp at hread
  | snoc hsteps hstep =>
    obtain ⟨-, rfl⟩ := List.append_singleton_inj.mp hread
    cases hstep with
    | blank _ hline => exact hline
    | inner _ hopen => exact absurd hclosed hopen
    | ending => rfl
    | first hother | further hother => exact absurd hnewline hother

/-! ### The second half -/

/-- A result of the layout `d` bytes further back and `n` lines further down, with some
tokens in front. -/
inductive Follows (d n : Nat) (front : List Lexeme) :
    Except TokenError TokenStream → Except TokenError TokenStream → Prop
  | ok {alone joined : TokenStream}
      (htokens : joined.tokens = front ++ alone.tokens.map (Lexeme.shift d)) :
      Follows d n front (.ok alone) (.ok joined)
  | error (error : TokenError) : Follows d n front (.error error) (.error (error.shift d n))

theorem Follows.put {n : Nat} {alone joined : Except TokenError TokenStream}
    (h : Follows d n [] alone joined) (front more : List Lexeme) (ended ended' : List LogicalLine) :
    Follows d n front (alone.map (put more ended))
      (joined.map (put (front ++ more.map (Lexeme.shift d)) ended')) := by
  cases h with
  | ok htokens => exact .ok (by simp [Layout.put, htokens])
  | error e => exact .error e

/-- Two states that differ in where their brackets and lines are. -/
structure State.Shifted (d : Nat) (state state' : State) : Prop where
  indents : state'.indents = state.indents
  brackets : state'.brackets = state.brackets.map fun found => (found.1, found.2.respan (· + d))
  line : state'.line?.isSome = state.line?.isSome

theorem matchBrackets_shift (d : Nat) (brackets : List (Bracket × Span)) (lexeme : Lexeme) :
    matchBrackets (brackets.map fun found => (found.1, found.2.respan (· + d))) (lexeme.shift d)
      = (matchBrackets brackets lexeme).map
          (List.map fun found => (found.1, found.2.respan (· + d))) := by
  unfold matchBrackets
  rw [Lexeme.shift_token]
  split
  · rfl
  · cases brackets with
    | nil => rfl
    | cons found brackets =>
      simp only [List.map_cons]
      split
      · rfl
      · rfl
  · rfl

namespace State.Shifted

variable {d : Nat} {state state' : State}

variable (h : State.Shifted d state state')

include h

theorem line_none : state'.line? = none ↔ state.line? = none := by
  rw [← Option.not_isSome_iff_eq_none, ← Option.not_isSome_iff_eq_none, h.line]

theorem line_some {line : LogicalLine}
    (hline : state.line? = some line) : ∃ line', state'.line? = some line' := by
  have := h.line
  rw [hline] at this
  exact Option.isSome_iff_exists.mp this

theorem closed (hclosed : state.brackets = []) : state'.brackets = [] := by
  rw [h.brackets, hclosed, List.map_nil]

/-- Brackets are matched as they were. -/
theorem matched
    {brackets : List (Bracket × Span)}
    (hmatch : matchBrackets state.brackets lexeme = .ok brackets) :
    matchBrackets state'.brackets (lexeme.shift d)
      = .ok (brackets.map fun found => (found.1, found.2.respan (· + d))) := by
  rw [h.brackets, matchBrackets_shift, hmatch]
  rfl

theorem unmatched (hmatch : matchBrackets state.brackets lexeme = .error fault) :
    matchBrackets state'.brackets (lexeme.shift d) = .error fault := by
  rw [h.brackets, matchBrackets_shift, hmatch]
  rfl

end State.Shifted

/-- The faults of the layout name no line. -/
theorem Stuck.lower (h : Stuck cs state lexeme fault) (n : Nat) : fault.lower n = fault := by
  cases h with
  | uneven => rfl
  | bracket hother hindent hbrackets =>
    unfold matchBrackets at hbrackets
    split at hbrackets
    · simp at hbrackets
    · split at hbrackets
      · cases hbrackets
        rfl
      · split at hbrackets
        · simp at hbrackets
        · cases hbrackets
          rfl
    · simp at hbrackets

variable {state state' : State}

theorem Stuck.follows (h : Stuck cs state lexeme fault) (d n : Nat) (front : List Lexeme) :
    Follows d n front (.error ⟨fault, lexeme.span⟩) (.error ⟨fault, (lexeme.shift d).span⟩) := by
  have herror : (⟨fault, lexeme.span⟩ : TokenError).shift d n = ⟨fault, (lexeme.shift d).span⟩ := by
    rw [TokenError.shift, h.lower]
    rfl
  exact herror ▸ .error ⟨fault, lexeme.span⟩

theorem Step.shift (ha : EndsLine a) (h : Step b (.ofText b) state lexeme next more ended)
    (hstate : State.Shifted (byteLength a) state state') :
    ∃ next' ended', State.Shifted (byteLength a) next next' ∧
      Step (a ++ b) (.ofText (a ++ b)) state' (lexeme.shift (byteLength a)) next'
        (more.map (Lexeme.shift (byteLength a))) ended' := by
  cases h with
  | blank hnewline hline =>
    exact ⟨state', [], hstate, .blank hnewline (hstate.line_none.mpr hline)⟩
  | inner hnewline hopen =>
    refine ⟨state', [], hstate, .inner hnewline ?_⟩
    simpa [hstate.brackets] using hopen
  | ending hnewline hline hclosed =>
    obtain ⟨line', hline'⟩ := hstate.line_some hline
    refine ⟨{ state' with line? := none }, [line'], ⟨hstate.indents, hstate.brackets, rfl⟩, ?_⟩
    exact .ending hnewline hline' (hstate.closed hclosed)
  | @first indents marks brackets hother hline hindent hbrackets =>
    rw [← lineHead_shift ha, ← hstate.indents] at hindent
    have hother : (lexeme.shift (byteLength a)).token ≠ .newline := hother
    rw [List.map_append, List.map_map]
    refine ⟨_, [], ?_,
      Step.first hother (hstate.line_none.mpr hline) hindent (hstate.matched hbrackets)⟩
    exact ⟨rfl, rfl, rfl⟩
  | further hother hline hbrackets =>
    obtain ⟨line', hline'⟩ := hstate.line_some hline
    refine ⟨_, [], ?_, Step.further hother hline' (hstate.matched hbrackets)⟩
    exact ⟨hstate.indents, rfl, rfl⟩

theorem Stuck.shift (ha : EndsLine a)
    (h : Stuck b state lexeme fault) (hstate : State.Shifted (byteLength a) state state') :
    Stuck (a ++ b) state' (lexeme.shift (byteLength a)) fault := by
  cases h with
  | uneven hother hline hindent =>
    rw [← lineHead_shift ha, ← hstate.indents] at hindent
    exact .uneven hother (hstate.line_none.mpr hline) hindent
  | bracket hother hindent hbrackets =>
    refine .bracket hother (fun hline => ?_) (hstate.unmatched hbrackets)
    rw [Lexeme.shift_start, lineHead_shift ha, hstate.indents]
    exact hindent (hstate.line_none.mp hline)

theorem finish_shift (size n : Nat) (hstate : State.Shifted d state state') :
    Follows d n [] (finish size state) (finish (size + d) state') := by
  unfold finish
  rw [hstate.indents]
  cases hbrackets : state.brackets with
  | cons found outer =>
    rw [hstate.brackets, hbrackets]
    exact .error ⟨.unclosed found.1, found.2⟩
  | nil =>
    rw [hstate.closed hbrackets]
    cases hline : state.line? with
    | none =>
      rw [hstate.line_none.mpr hline]
      exact .ok (by simp [Lexeme.shift, Span.respan, Span.point])
    | some line =>
      obtain ⟨line', hline'⟩ := hstate.line_some hline
      rw [hline']
      exact .ok (by simp [TokenStream.consLine, Lexeme.shift, Span.respan, Span.point])

/-- **From like states the layout does to the second half what it does to it alone.** -/
theorem run_shift (ha : EndsLine a) (lexemes : List Lexeme)
    (hstate : State.Shifted (byteLength a) state state') :
    Follows (byteLength a) (a.count '\n') [] (run b (.ofText b) state lexemes)
      (run (a ++ b) (.ofText (a ++ b)) state' (lexemes.map (Lexeme.shift (byteLength a)))) := by
  induction lexemes generalizing state state' with
  | nil =>
    have hsize : (LineTable.ofText (a ++ b)).size = (LineTable.ofText b).size + byteLength a := by
      simp only [LineTable.ofText, byteLength_append]
      omega
    rw [List.map_nil, run, run, hsize]
    exact finish_shift _ _ hstate
  | cons lexeme rest ih =>
    rw [List.map_cons]
    rcases step_or_stuck b (.ofText b) state lexeme with ⟨next, more, ended, hstep⟩ |
      ⟨fault, hstuck⟩
    · obtain ⟨next', ended', hnext, hstep'⟩ := hstep.shift ha hstate
      rw [run_of_step hstep, run_of_step hstep']
      exact (ih hnext).put [] more ended ended'
    · rw [run_of_stuck hstuck, run_of_stuck (hstuck.shift ha hstate)]
      exact hstuck.follows _ _ _

/-- Where the first half leaves blocks open, a first token at the margin closes them. -/
theorem run_behind (ha : EndsLine a) (hpos : ∀ w ∈ indents, 0 < w) (lexemes : List Lexeme)
    (hmargin : ∀ x ∈ lexemes.find? (·.token != .newline), width (lineHead b x.span.start) = 0) :
    ∃ place, Follows (byteLength a) (a.count '\n')
      (List.replicate indents.length ⟨.dedent, .point place⟩) (run b (.ofText b) .initial lexemes)
      (run (a ++ b) (.ofText (a ++ b)) ⟨indents, [], none⟩
        (lexemes.map (Lexeme.shift (byteLength a)))) := by
  induction lexemes with
  | nil => exact ⟨(LineTable.ofText (a ++ b)).size, .ok (by simp [State.initial])⟩
  | cons lexeme rest ih =>
    rw [List.map_cons]
    by_cases hnewline : lexeme.token = .newline
    · -- A blank line changes nothing.
      have hblank : Step b (.ofText b) .initial lexeme .initial [] [] := .blank hnewline rfl
      have hblank' : Step (a ++ b) (.ofText (a ++ b)) ⟨indents, [], none⟩
          (lexeme.shift (byteLength a)) ⟨indents, [], none⟩ [] [] := .blank hnewline rfl
      rw [run_of_step hblank, run_of_step hblank', map_put_nil, map_put_nil]
      refine ih ?_
      rw [List.find?_cons_of_neg (by simp [hnewline])] at hmargin
      exact hmargin
    · rw [List.find?_cons_of_pos (by simpa using hnewline)] at hmargin
      have hwidth := hmargin lexeme rfl
      have hwidth' : width (lineHead (a ++ b) (lexeme.span.start + byteLength a)) = 0 := by
        rw [lineHead_shift ha, hwidth]
      have hother : (lexeme.shift (byteLength a)).token ≠ .newline := hnewline
      -- Both lines begin, the one in the whole text behind a dedent for every block.
      have hindent : reindent? [] (width (lineHead b lexeme.span.start)) = some ([], []) := by
        rw [hwidth]
        exact reindent?_margin (by simp)
      have hindent' : reindent? indents
          (width (lineHead (a ++ b) (lexeme.span.start + byteLength a)))
          = some ([], List.replicate indents.length .dedent) := by
        rw [hwidth']
        exact reindent?_margin hpos
      refine ⟨lexeme.span.start + byteLength a, ?_⟩
      have hmatch' := matchBrackets_shift (byteLength a) [] lexeme
      cases hmatch : matchBrackets [] lexeme with
      | error fault =>
        rw [hmatch] at hmatch'
        have hstuck : Stuck b .initial lexeme fault :=
          .bracket hnewline (fun _ => by simp [State.initial, hindent]) hmatch
        have hstuck' : Stuck (a ++ b) ⟨indents, [], none⟩ (lexeme.shift (byteLength a)) fault :=
          .bracket hother (fun _ => by simp [hindent']) hmatch'
        rw [run_of_stuck hstuck, run_of_stuck hstuck']
        exact hstuck.follows _ _ _
      | ok brackets =>
        rw [hmatch] at hmatch'
        rw [run_of_step (.first hnewline rfl hindent hmatch),
          run_of_step (.first hother rfl hindent' hmatch'), List.map_replicate]
        refine Follows.put (run_shift ha rest ?_) _ [lexeme] [] []
        exact ⟨rfl, rfl, rfl⟩

/-- What the layout puts out for the first half stays in front. -/
theorem Follows.behind {n : Nat} {front : List Lexeme}
    {alone joined : Except TokenError TokenStream}
    (h : Follows d n front alone joined) (out : List Lexeme) (lines : List LogicalLine) :
    Follows d n (out ++ front) alone (joined.map (Layout.put out lines)) := by
  cases h with
  | ok htokens => exact .ok (by simp [Layout.put, htokens])
  | error e => exact .error e

/-- What a run puts out first. -/
theorem run_head {lexemes : List Lexeme}
    (h : run cs table .initial lexemes = .ok stream) :
    stream.tokens.head? = (lexemes.find? (·.token != .newline)).map fun x =>
      if width (lineHead cs x.span.start) = 0 then x else ⟨.indent, .point x.span.start⟩ := by
  induction lexemes generalizing stream with
  | nil =>
    cases h
    rfl
  | cons lexeme rest ih =>
    obtain ⟨next, more, ended, tail, hstep, htail, rfl⟩ := run_cons h
    cases hstep with
    | blank hnewline hline =>
      rw [List.find?_cons_of_neg (by simp [hnewline])]
      exact ih htail
    | inner _ hopen => exact absurd rfl hopen
    | ending _ hline => simp [State.initial] at hline
    | further _ hline => simp [State.initial] at hline
    | @first indents marks brackets hother hline hindent hbrackets =>
      rw [List.find?_cons_of_pos (by simpa using hother), Option.map_some]
      have hindent : reindent? [] (width (lineHead cs lexeme.span.start)) = some (indents, marks) :=
        hindent
      by_cases hwidth : width (lineHead cs lexeme.span.start) = 0
      · rw [hwidth, reindent?_margin (by simp)] at hindent
        cases hindent
        rw [if_pos hwidth]
        rfl
      · rw [reindent?_deeper (Nat.pos_of_ne_zero hwidth)] at hindent
        cases hindent
        rw [if_neg hwidth]
        rfl

end Layout

/-! ### The whole text -/

/-- The first token of a text that is no newline. -/
def firstToken? (cs : List Char) : Option Lexeme :=
  (lexemesFrom 0 (pieces cs)).find? (·.token != .newline)

/-- The text's first token, if it has one, is not indented. -/
def StartsAtMargin (cs : List Char) : Prop :=
  ∀ x ∈ firstToken? cs, Layout.width (lineHead cs x.span.start) = 0

theorem tokenize_run {source : String} (h : tokenize source = .ok stream) :
    ∃ lexemes, scan source.toList = .ok lexemes ∧
      Layout.run source.toList (.ofText source.toList) .initial lexemes = .ok stream := by
  unfold tokenize at h
  simp only at h
  split at h
  · simp at h
  · rename_i lexemes hscan
    split at h
    · simp at h
    · rename_i laid hrun
      cases h
      exact ⟨lexemes, hscan, hrun⟩

/-- What a token stream begins with: its first token, or the indent before it. -/
theorem tokenize_head {source : String} (h : tokenize source = .ok stream) :
    stream.tokens.head? = (firstToken? source.toList).map fun x =>
      if Layout.width (lineHead source.toList x.span.start) = 0 then x
      else ⟨.indent, .point x.span.start⟩ := by
  obtain ⟨lexemes, hscan, hrun⟩ := tokenize_run h
  rw [firstToken?, ← (scan_pieces hscan).2]
  exact Layout.run_head hrun

variable {source more : String} {first : TokenStream}

variable (hcut : LineEndsAt (source ++ more).toList (byteLength source.toList))

include hcut

/-- The layout of the whole text, if both halves can be scanned. -/
theorem LineEndsAt.layout_append {second : List Lexeme}
    (hfirst : tokenize source = .ok first) (hmargin : StartsAtMargin more.toList)
    (hsecond : scan more.toList = .ok second) :
    ∃ front lexemes, front.map Lexeme.token = first.tokens.map Lexeme.token ∧
      scan (source ++ more).toList = .ok lexemes ∧
      Layout.Follows (byteLength source.toList) (source.toList.count '\n') front
        (Layout.run more.toList (.ofText more.toList) .initial second)
        (Layout.run (source ++ more).toList
          (.ofText (source ++ more).toList) .initial lexemes) := by
  rw [String.toList_append] at hcut ⊢
  obtain ⟨read, last, out, lines, rest, hscan, hsteps, hfinish, rfl⟩ := tokenize_steps hfirst
  obtain ⟨-, -, before, newline, rfl, hnewline⟩ := hcut.scan_append hscan
  obtain ⟨-, rfl⟩ := scan_pieces hsecond
  have hscanned := scan_scanned hscan
  obtain ⟨hclosed, hrest⟩ := Layout.finish_cases hfinish
  have hline := hsteps.line_of_newline hnewline hclosed
  -- Only blocks are open at the end of the first half.
  obtain ⟨indents, brackets, line?⟩ := last
  simp only at hclosed hline
  subst hclosed hline
  obtain ⟨place, hfollows⟩ := Layout.run_behind hcut.endsLine hsteps.indents_pos _ hmargin
  refine ⟨out ++ List.replicate indents.length ⟨.dedent, .point place⟩, _, ?_,
    hcut.scan_ok hscan hsecond, ?_⟩
  · rcases hrest with ⟨-, rfl⟩ | ⟨line, hsome, -⟩
    · simp
    · simp at hsome
  · rw [Layout.run_of_steps (hsteps.left _ fun lexeme hlexeme => ?_)]
    · exact hfollows.behind out lines
    · have := (hscanned.stands lexeme hlexeme).bounds
      omega

/-- **The tokens of the whole are those of its halves**, one behind the other. -/
theorem tokenize_append_ok {second : TokenStream}
    (hfirst : tokenize source = .ok first) (hmargin : StartsAtMargin more.toList)
    (hsecond : tokenize more = .ok second) :
    ∃ front stream, front.map Lexeme.token = first.tokens.map Lexeme.token ∧
      tokenize (source ++ more) = .ok stream ∧
      stream.tokens = front ++ second.tokens.map (Lexeme.shift (byteLength source.toList)) := by
  obtain ⟨lexemes, hscan, hrun⟩ := tokenize_run hsecond
  obtain ⟨front, lexemes', htokens, hscan', hfollows⟩ := hcut.layout_append hfirst hmargin hscan
  rw [hrun] at hfollows
  generalize hrun' : Layout.run (source ++ more).toList _ _ lexemes' = joined at hfollows
  cases hfollows with
  | @ok _ stream hstream =>
    refine ⟨front, stream, htokens, ?_, hstream⟩
    simp only [tokenize, hscan', hrun']

/-- **What is wrong with the second half is wrong with the whole.** -/
theorem tokenize_append_error {errors : TokenErrors}
    (hfirst : tokenize source = .ok first) (hmargin : StartsAtMargin more.toList)
    (hsecond : tokenize more = .error errors) : ∃ later, tokenize (source ++ more) = .error
      ⟨errors.first.shift (byteLength source.toList) (source.toList.count '\n'), later⟩ := by
  unfold tokenize at hsecond
  simp only at hsecond
  split at hsecond
  · rename_i faults hscan
    cases hsecond
    obtain ⟨read, -, -, -, -, hread, -⟩ := tokenize_steps hfirst
    rw [String.toList_append] at hcut
    obtain ⟨later, hlater⟩ := hcut.scan_error hread hscan
    exact ⟨later, by simp only [tokenize, String.toList_append, hlater]⟩
  · rename_i lexemes hscan
    obtain ⟨front, lexemes', -, hscan', hfollows⟩ := hcut.layout_append hfirst hmargin hscan
    split at hsecond
    · rename_i error hrun
      cases hsecond
      rw [hrun] at hfollows
      generalize hrun' : Layout.run (source ++ more).toList _ _ lexemes' = joined at hfollows
      cases hfollows with
      | error => exact ⟨[], by simp only [tokenize, hscan', hrun']⟩
    · simp at hsecond

end Scrutiny
