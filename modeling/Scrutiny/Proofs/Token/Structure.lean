/-
The structure of a token stream.

A parser treats a token stream as if its blocks were written with braces.  What
makes that right is collected in `LaidOut`: blocks and brackets pair off, marks
stand only where a line begins, nothing but marks is added or taken away, and the
logical lines on record are the ones in the stream, in order.

Blocks, brackets and marks are the subject of the files before this one.  What is
added here is the record of logical lines: `Describes` ties a line on record to the
tokens before its newline, and line numbers grow because a newline stands between
any two lines.
-/
import Mathlib.Data.List.Forall2
import Scrutiny.Proofs.Token.Marks

namespace Scrutiny

variable {lines : List LogicalLine} {read : List Lexeme} {size : Nat}

/-- A logical line on record is the one with the given tokens before its newline. -/
structure LogicalLine.Describes (table : LineTable) (line : LogicalLine) (body : List Lexeme) :
    Prop where
  /-- It is one line. -/
  single : ∀ lexeme ∈ body, lexeme.token ≠ .newline
  /-- It stands where its first token that is no mark does. -/
  place : ∃ first, body.find? (!·.token.isMark) = some first ∧
    line.line = table.line first.span.start
  /-- It opens a block if it ends in a colon. -/
  opens : line.opensBlock = true ↔ ∃ last, body.getLast? = some last ∧ last.token = .symbol .colon

/-- The same for a run of tokens with its newline. -/
def LogicalLine.Ends (table : LineTable) (line : LogicalLine) (run : List Lexeme) : Prop :=
  ∃ body newline, run = body ++ [newline] ∧ newline.token = .newline ∧ line.Describes table body

/-- What a token stream is, beside the scan of its text. -/
structure LaidOut (cs : List Char) (lexemes : List Lexeme) (stream : TokenStream) : Prop where
  /-- Blocks are closed after they are opened, and all of them are. -/
  blocks : Blocks 0 (stream.tokens.map Lexeme.token)
  /-- Brackets pair off, with no mark between two partners. -/
  brackets : Nested stream.tokens
  marks : MarksPlaced (stream.tokens.map Lexeme.token)
  /-- All but the marks is as it was scanned. -/
  unmarked : stream.tokens.filter (!·.token.isMark) = lexemes.filter (·.token ≠ .newline)
  newlines : (stream.tokens.map Lexeme.token).count .newline = stream.lines.length
  /-- The stream is its logical lines one after another, each with its newline, and
  then no more newlines. -/
  lines : ∃ runs tail, stream.tokens = runs.flatten ++ tail ∧
    (∀ lexeme ∈ tail, lexeme.token ≠ .newline) ∧
    List.Forall₂ (LogicalLine.Ends (LineTable.ofText cs)) stream.lines runs
  ascending : stream.lines.Pairwise (·.line < ·.line)

namespace Layout

/-! ### The record of logical lines -/

section

variable {cs : List Char} {table : LineTable}

/-- A line that is begun, or goes on, is described by its last token as well. -/
theorem describes_concat {line : LogicalLine} {body : List Lexeme} {lexeme : Lexeme}
    (first : Lexeme) (hsingle : ∀ other ∈ body, other.token ≠ .newline)
    (hother : lexeme.token ≠ .newline)
    (hfirst : (body ++ [lexeme]).find? (!·.token.isMark) = some first)
    (hline : line.line = table.line first.span.start)
    (hopens : line.opensBlock = (lexeme.token == .symbol .colon)) :
    line.Describes table (body ++ [lexeme]) := by
  refine ⟨?_, ⟨first, hfirst, hline⟩, ?_⟩
  · intro other hmem
    rcases List.mem_append.mp hmem with hmem | hmem
    · exact hsingle other hmem
    · rw [List.mem_singleton.mp hmem]
      exact hother
  · rw [hopens]
    simp

/-- The tokens put out are the lines on record, each ended by its newline, and then
the line in progress. -/
theorem Steps.recorded {state : State} {out : List Lexeme}
    (h : Steps cs table .initial read state out lines) (hread : Scanned cs read) :
    ∃ runs body, out = runs.flatten ++ body ∧ List.Forall₂ (LogicalLine.Ends table) lines runs ∧
      (state.line? = none → body = []) ∧
      ∀ line, state.line? = some line → line.Describes table body := by
  induction h with
  | nil => exact ⟨[], [], rfl, .nil, fun _ => rfl, by simp [State.initial]⟩
  | @snoc read state next out more lines ended lexeme hsteps hstep ih =>
    obtain ⟨runs, body, rfl, hruns, hnone, hsome⟩ := ih hread.init
    have hplain := hread.last.token_ne
    cases hstep with
    | blank hnewline hline => exact ⟨runs, body, by simp, by simpa using hruns, hnone, hsome⟩
    | inner hnewline hopen => exact ⟨runs, body, by simp, by simpa using hruns, hnone, hsome⟩
    | @ending line hnewline hline hclosed =>
      refine ⟨runs ++ [body ++ [lexeme]], [], by simp, ?_, fun _ => rfl, by simp⟩
      exact List.rel_append hruns
        (.cons ⟨body, lexeme, rfl, hnewline, hsome line hline⟩ .nil)
    | @further line brackets hother hline hbrackets =>
      obtain ⟨hsingle, ⟨first, hfirst, hplace⟩, -⟩ := hsome line hline
      refine ⟨runs, body ++ [lexeme], by simp, by simpa using hruns, by simp, ?_⟩
      intro line' hline'
      obtain rfl := Option.some.inj hline'
      refine describes_concat first hsingle hother ?_ hplace rfl
      rw [List.find?_append, hfirst]
      rfl
    | @first indents marks brackets hother hline hindent hbrackets =>
      -- Nothing has been put out since the last newline, so the marks come first.
      obtain rfl := hnone hline
      refine ⟨runs, marks.map (⟨·, .point lexeme.span.start⟩) ++ [lexeme], by simp,
        by simpa using hruns, by simp, ?_⟩
      have hmarks : ∀ other ∈ marks.map fun mark =>
          (⟨mark, .point lexeme.span.start⟩ : Lexeme), other.token ∈ marks := by
        intro other hmem
        obtain ⟨mark, hmark, rfl⟩ := List.mem_map.mp hmem
        exact hmark
      intro line' hline'
      obtain rfl := Option.some.inj hline'
      refine describes_concat lexeme ?_ hother ?_ rfl rfl
      · intro other hmem hnewline
        have hmem := hmarks other hmem
        rw [hnewline] at hmem
        rcases reindent?_cases hindent with ⟨-, rfl⟩ | ⟨left, -, -, rfl⟩
        · simp at hmem
        · simp at hmem
      · rw [List.find?_append, List.find?_eq_none.mpr]
        · simp [isMark_eq_false hother hplain]
        · intro other hmem
          simp [reindent?_isMark hindent _ (hmarks other hmem)]

end

/-! ### Line numbers grow -/

/-- What is known of the line numbers on record: they grow, the text has gone past
each of them, and the line in progress comes after them all. -/
structure Ascending (table : LineTable) (read : List Lexeme) (line? : Option LogicalLine)
    (lines : List LogicalLine) : Prop where
  pairwise : lines.Pairwise (·.line < ·.line)
  passed : ∀ line ∈ lines, ∃ lexeme ∈ read, line.line < table.line lexeme.span.stop
  current : ∀ line ∈ line?, (∀ earlier ∈ lines, earlier.line < line.line) ∧
    ∃ lexeme ∈ read, line.line ≤ table.line lexeme.span.start

theorem Ascending.more {table : LineTable} {line? : Option LogicalLine}
    (h : Ascending table read line? lines) (lexeme : Lexeme) :
    Ascending table (read ++ [lexeme]) line? lines := by
  refine ⟨h.pairwise, fun line hline => ?_, fun line hline => ?_⟩
  · obtain ⟨other, hother, hlt⟩ := h.passed line hline
    exact ⟨other, by simp [hother], hlt⟩
  · obtain ⟨hearlier, other, hother, hle⟩ := h.current line hline
    exact ⟨hearlier, other, by simp [hother], hle⟩

variable {cs : List Char}

theorem Steps.ascending {state : State} {out : List Lexeme}
    (h : Steps cs (.ofText cs) .initial read state out lines) (hread : Scanned cs read) :
    Ascending (.ofText cs) read state.line? lines := by
  induction h with
  | nil => exact ⟨.nil, by simp, by simp [State.initial]⟩
  | @snoc read state next out more lines ended lexeme hsteps hstep ih =>
    have hasc := ih hread.init
    have hmore := hasc.more lexeme
    cases hstep with
    | blank hnewline hline => simpa using hmore
    | inner hnewline hopen => simpa using hmore
    | @ending line hnewline hline hclosed =>
      obtain ⟨hearlier, first, hfirst, hle⟩ := hasc.current line hline
      refine ⟨?_, ?_, by simp⟩
      · refine List.pairwise_append.mpr ⟨hasc.pairwise, List.pairwise_singleton _ _, ?_⟩
        intro earlier hmem other hother
        rw [List.mem_singleton.mp hother]
        exact hearlier earlier hmem
      · intro other hother
        rcases List.mem_append.mp hother with hother | hother
        · exact hmore.passed other hother
        · -- The newline that ends the line takes the text past it.
          rw [List.mem_singleton.mp hother]
          refine ⟨lexeme, by simp, ?_⟩
          have hstart : first.span.start ≤ lexeme.span.start :=
            Nat.le_trans (hread.init.stands first hfirst).bounds.1
              (hread.le_last first hfirst)
          have hmono := (LineTable.ofText cs).line_mono hstart
          have hlt := hread.last.line_lt hnewline
          omega
    | @first indents marks brackets hother hline hindent hbrackets =>
      rw [List.append_nil]
      refine ⟨hmore.pairwise, hmore.passed, fun line hline' => ?_⟩
      obtain rfl := Option.some.inj hline'
      refine ⟨fun earlier hmem => ?_, lexeme, by simp, Nat.le_refl _⟩
      obtain ⟨passed, hpassed, hlt⟩ := hasc.passed earlier hmem
      have hmono := (LineTable.ofText cs).line_mono (hread.le_last passed hpassed)
      show earlier.line < (LineTable.ofText cs).line lexeme.span.start
      omega
    | @further line brackets hother hline hbrackets =>
      rw [List.append_nil]
      refine ⟨hmore.pairwise, hmore.passed, fun line' hline' => ?_⟩
      obtain rfl := Option.some.inj hline'
      exact hmore.current line hline

end Layout

/-! ### The whole stream -/

/-- Lines that end in one newline each have as many newlines as there are lines. -/
theorem count_newline_flatten {table : LineTable}
    {runs : List (List Lexeme)} (h : List.Forall₂ (LogicalLine.Ends table) lines runs) :
    (runs.flatten.map Lexeme.token).count .newline = lines.length := by
  induction h with
  | nil => rfl
  | cons hends hrest ih =>
    obtain ⟨body, newline, rfl, hnewline, hdescribes⟩ := hends
    have hbody : (body.map Lexeme.token).count .newline = 0 := by
      rw [List.count_eq_zero]
      intro hmem
      obtain ⟨lexeme, hlexeme, htoken⟩ := List.mem_map.mp hmem
      exact hdescribes.single lexeme hlexeme htoken
    simp only [List.flatten_cons, List.map_append, List.map_cons, List.map_nil, hnewline,
      List.count_append, hbody, ih, List.count_singleton_self, List.length_cons]
    omega

namespace Layout

variable {cs : List Char} {read out : List Lexeme} {state : State} {lines : List LogicalLine}
  {rest : TokenStream}

/-- The end of a text adds marks only. -/
theorem finish_isMark (h : finish size state = .ok rest) :
    ∀ lexeme ∈ rest.tokens, lexeme.token.isMark = true := by
  intro lexeme hlexeme
  obtain ⟨-, ⟨-, rfl⟩ | ⟨line, -, rfl⟩⟩ := finish_cases h
  · rw [List.eq_of_mem_replicate hlexeme]
    rfl
  · rcases List.mem_cons.mp hlexeme with rfl | hlexeme
    · rfl
    · rw [List.eq_of_mem_replicate hlexeme]
      rfl

/-- The end of a text closes every block that is open, each in its place. -/
theorem Steps.finish_blocks (h : Steps cs (.ofText cs) .initial read state out lines)
    (hread : Scanned cs read) (hfinish : finish size state = .ok rest) :
    Blocks 0 ((out ++ rest.tokens).map Lexeme.token) ∧
      MarksPlaced ((out ++ rest.tokens).map Lexeme.token) := by
  have hblocks := h.blocks hread
  obtain ⟨horder, hbetween⟩ := h.inOrder hread
  have hopen : Blocks (0 + state.indents.length) (out.map Lexeme.token) := by
    rwa [Nat.zero_add]
  have hnewline : Token.newline ≠ .indent ∧ Token.newline ≠ .dedent := by decide
  obtain ⟨-, ⟨hline, rfl⟩ | ⟨line, hline, rfl⟩⟩ := finish_cases hfinish
  · rw [List.map_append, List.map_replicate]
    exact ⟨hopen.dedents _,
      (horder.dedents (hbetween hline) fun hne => hblocks.ne_nil hne).marksPlaced⟩
  · rw [List.map_append, List.map_cons, List.map_replicate, List.append_cons]
    refine ⟨(hopen.plain hnewline).dedents _, ?_⟩
    exact ((horder.plain hnewline).dedents (by simp) (by simp)).marksPlaced

/-- The end of a text ends the line in progress, if there is one. -/
theorem Steps.finish_lines (h : Steps cs (.ofText cs) .initial read state out lines)
    (hread : Scanned cs read) (hfinish : finish size state = .ok rest) :
    (∃ runs tail, out ++ rest.tokens = runs.flatten ++ tail ∧
        (∀ lexeme ∈ tail, lexeme.token ≠ .newline) ∧
        List.Forall₂ (LogicalLine.Ends (LineTable.ofText cs)) (lines ++ rest.lines) runs) ∧
      (lines ++ rest.lines).Pairwise (·.line < ·.line) := by
  obtain ⟨runs, body, rfl, hruns, hnone, hsome⟩ := h.recorded hread
  have hasc := h.ascending hread
  have htail : ∀ n : Nat, ∀ lexeme ∈ List.replicate n (⟨.dedent, .point size⟩ : Lexeme),
      lexeme.token ≠ .newline := by
    intro n lexeme hlexeme
    rw [List.eq_of_mem_replicate hlexeme]
    simp
  obtain ⟨-, ⟨hline, rfl⟩ | ⟨line, hline, rfl⟩⟩ := finish_cases hfinish
  · obtain rfl := hnone hline
    refine ⟨⟨runs, _, by rw [List.append_nil], htail _, by simpa using hruns⟩, ?_⟩
    simpa using hasc.pairwise
  · refine ⟨⟨runs ++ [body ++ [⟨.newline, .point size⟩]],
      List.replicate state.indents.length ⟨.dedent, .point size⟩, by simp, htail _, ?_⟩, ?_⟩
    · exact List.rel_append hruns (.cons ⟨body, _, rfl, rfl, hsome line hline⟩ .nil)
    · refine List.pairwise_append.mpr ⟨hasc.pairwise, List.pairwise_singleton _ _, ?_⟩
      intro earlier hmem other hother
      rw [List.mem_singleton.mp hother]
      exact (hasc.current line hline).1 earlier hmem

end Layout

/--
**A token stream is well laid out.**  Whatever the text, if it has a token stream
then its blocks and brackets pair off, its marks stand where lines begin, without
them it is the scan of the text, and its logical lines are on record in order.
-/
theorem tokenize_laidOut {source : String} {stream : TokenStream}
    (h : tokenize source = .ok stream) :
    ∃ lexemes, scan source.toList = .ok lexemes ∧ LaidOut source.toList lexemes stream := by
  obtain ⟨lexemes, last, out, lines, rest, hscan, hsteps, hfinish, rfl⟩ := tokenize_steps h
  have hread := scan_scanned hscan
  have hmarks := Layout.finish_isMark hfinish
  obtain ⟨hblocks, hplaced⟩ := hsteps.finish_blocks hread hfinish
  obtain ⟨hlines, hascending⟩ := hsteps.finish_lines hread hfinish
  refine ⟨lexemes, hscan, hblocks, ?_, hplaced, ?_, ?_, hlines, hascending⟩
  · have hopened := hsteps.opened fun lexeme hlexeme => (hread.stands lexeme hlexeme).token_ne
    rw [(Layout.finish_cases hfinish).1] at hopened
    exact Nested.append hopened (Nested.of_marks hmarks)
  · have hnone : rest.tokens.filter (!·.token.isMark) = [] := by
      rw [List.filter_eq_nil_iff]
      intro lexeme hlexeme
      simp [hmarks lexeme hlexeme]
    rw [List.filter_append, hnone, List.append_nil]
    exact hsteps.unmarked hread
  · obtain ⟨runs, tail, htokens, htail, hruns⟩ := hlines
    have hcount : (tail.map Lexeme.token).count .newline = 0 := by
      rw [List.count_eq_zero]
      intro hmem
      obtain ⟨lexeme, hlexeme, htoken⟩ := List.mem_map.mp hmem
      exact htail lexeme hlexeme htoken
    simp only [htokens, List.map_append, List.count_append, hcount, Nat.add_zero]
    exact count_newline_flatten hruns

/-- A block with brackets over two lines, a blank line, a comment, and no last newline. -/
theorem tokenize_laidOut_block :
    ∃ stream, tokenize "if x:\n  f(y,\n2)\n\n # end\nz" = .ok stream ∧
      ∃ lexemes, scan "if x:\n  f(y,\n2)\n\n # end\nz".toList = .ok lexemes ∧
        LaidOut "if x:\n  f(y,\n2)\n\n # end\nz".toList lexemes stream := by
  have hok : (tokenize "if x:\n  f(y,\n2)\n\n # end\nz").toOption.isSome = true := by
    decide +kernel
  cases hstream : tokenize "if x:\n  f(y,\n2)\n\n # end\nz" with
  | error errors =>
    rw [hstream] at hok
    simp [Except.toOption] at hok
  | ok stream => exact ⟨stream, rfl, tokenize_laidOut hstream⟩

end Scrutiny
