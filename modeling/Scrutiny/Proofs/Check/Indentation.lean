/-
When nothing is said about indentation.

The check keeps a stack of its own: a level for every line that ends in a colon, as wide as
configured.  The layout keeps one too, of the widths that the lines have, and its indents and
dedents are what the grammar sees.  So the two agree only where blocks are opened by the same
lines, and that the grammar makes sure of (`Spot.walk`).

A token stream falls into lines (`Lined`), each of them behind the marks of its indentation.
As long as every line is in line, the levels of the check are those of the layout, with one
more behind a line that opens a block; the first line that is not is reported.  Hence nothing
is reported just if every line is indented by the configured width for every block that it is
in (`indentation_silent_iff`).
-/
import Scrutiny.Check.Indentation
import Scrutiny.Proofs.Grammar.Blocks
import Scrutiny.Proofs.Token.Acceptance
import Scrutiny.Proofs.Tree.Locality

namespace Scrutiny

variable {depth : Nat} {head : List Char} {lexemes : List Lexeme} {line : LogicalLine}
  {opened : Bool} {stream : TokenStream} {ts : List Token}

/-! ### Indentation with spaces -/

/-- There is no tab and no form feed before a token on its line. -/
def Lexeme.Spaced (cs : List Char) (lexeme : Lexeme) : Prop :=
  ∀ c ∈ lineHead cs lexeme.span.start, c ≠ '\t' ∧ c ≠ '\x0c'

instance (cs : List Char) (lexeme : Lexeme) : Decidable (lexeme.Spaced cs) :=
  List.decidableBAll (fun c => c ≠ '\t' ∧ c ≠ '\x0c') _

namespace Layout

theorem foldl_advance (h : ∀ c ∈ head, c ≠ '\t' ∧ c ≠ '\x0c') (column : Nat) :
    head.foldl advance column = column + head.count ' ' := by
  induction head generalizing column with
  | nil => rfl
  | cons c head ih =>
    rw [List.forall_mem_cons] at h
    rw [List.foldl_cons, ih h.2, List.count_cons]
    by_cases hspace : c = ' '
    · simp [advance, hspace]
      omega
    · simp [advance, hspace, h.1]

/-- With spaces alone the indentation as written is as long as it is wide. -/
theorem indentText_spaces (h : ∀ c ∈ head, c ≠ '\t' ∧ c ≠ '\x0c') :
    (indentText head).toList = List.replicate (width head) ' ' := by
  have hfilter : head.filter (fun c => c == ' ' || c == '\t') = head.filter (· == ' ') := by
    refine List.filter_congr fun c hc => ?_
    simp [(h c hc).1]
  rw [indentText, String.toList_ofList, hfilter, List.filter_beq, width, foldl_advance h,
    Nat.zero_add]

theorem indentText_length (h : ∀ c ∈ head, c ≠ '\t' ∧ c ≠ '\x0c') :
    (indentText head).length = width head := by
  rw [← String.length_toList, indentText_spaces h, List.length_replicate]

end Layout

/-! ### Line by line -/

/-- Tokens laid out from some open levels on.  A line comes behind the marks of its
indentation, written in spaces, and ends in a newline; behind the last line the levels are
closed. -/
inductive Lined : List Nat → List Token → List LogicalLine → Prop
  | done {indents : List Nat} : Lined indents (List.replicate indents.length .dedent) []
  | line {indents kept : List Nat} {marks body ts : List Token} {line : LogicalLine}
      {lines : List LogicalLine}
      (hindent : Layout.reindent? indents line.indent.length = some (kept, marks))
      (hspaces : '\t' ∉ line.indent.toList) (hbody : ∀ t ∈ body, t.isMark = false)
      (hne : body ≠ []) (hopens : line.opensBlock = (body.getLast? == some (.symbol .colon)))
      (hrest : Lined kept ts lines) :
      Lined indents (marks ++ (body ++ .newline :: ts)) (line :: lines)

/-- Whether a line opens a block, with some more tokens on it. -/
def opensAfter (opens : Bool) (body : List Token) : Bool :=
  body.foldl (fun _ t => t == .symbol .colon) opens

theorem opensAfter_eq {body : List Token} (hne : body ≠ []) (opens : Bool) :
    opensAfter opens body = (body.getLast? == some (.symbol .colon)) := by
  obtain ⟨init, last, rfl⟩ := (List.eq_nil_or_concat body).resolve_left hne
  simp [opensAfter]

namespace Layout

variable {cs : List Char} {table : LineTable}

/-- A run records the indentation of the lines that begin in it, behind that of the line it
starts in. -/
theorem run_indents {read : List Lexeme} {state : State}
    (hrun : run cs table state lexemes = .ok stream) (htracks : state.Tracks cs read) :
    stream.lines.map LogicalLine.indent = (state.line?.map LogicalLine.indent).toList ++
      (lineFirstsAfter read lexemes).map fun x => indentText (lineHead cs x.span.start) := by
  induction lexemes generalizing read state stream with
  | nil =>
    obtain ⟨-, ⟨hline, rfl⟩ | ⟨line, hline, rfl⟩⟩ := finish_cases hrun <;>
      simp [hline, lineFirstsAfter]
  | cons lexeme lexemes ih =>
    obtain ⟨next, more, ended, tail, hstep, htail, rfl⟩ := run_cons hrun
    have hrest := ih htail (htracks.step hstep)
    cases hstep with
    | blank hnewline | inner hnewline =>
      rw [lineFirstsAfter, if_neg fun hbegins => hbegins.1 hnewline]
      exact hrest
    | ending hnewline hline =>
      rw [lineFirstsAfter, if_neg fun hbegins => hbegins.1 hnewline, hline]
      simpa using hrest
    | first hother hline =>
      rw [lineFirstsAfter, if_pos (htracks.begins_iff.mpr ⟨hother, hline⟩), hline]
      exact hrest
    | further hother hline =>
      rw [lineFirstsAfter, if_neg fun hbegins => ?_, hline]
      · exact hrest
      · simp [(htracks.begins_iff.mp hbegins).2] at hline

/-- The logical lines of a text are as wide as what stands before their first tokens. -/
theorem run_widths (hrun : run cs table .initial lexemes = .ok stream)
    (hspaced : ∀ x ∈ lineFirsts lexemes, x.Spaced cs) :
    stream.lines.map (·.indent.length) = lineWidths cs lexemes := by
  calc stream.lines.map (·.indent.length)
    _ = (stream.lines.map LogicalLine.indent).map String.length := by rw [List.map_map]; rfl
    _ = (lineFirsts lexemes).map fun x => (indentText (lineHead cs x.span.start)).length := by
        rw [run_indents hrun (.initial cs), List.map_append, List.map_map]
        rfl
    _ = lineWidths cs lexemes := List.map_congr_left fun x hx => indentText_length (hspaced x hx)

/-- A run lays out its tokens line by line.  If it starts within a line, the rest of that
comes first. -/
theorem run_lined {read : List Lexeme} {state : State}
    (hrun : run cs table state lexemes = .ok stream) (htracks : state.Tracks cs read)
    (hscanned : ∀ x ∈ lexemes, x.token ≠ .indent ∧ x.token ≠ .dedent)
    (hspaced : ∀ x ∈ lineFirstsAfter read lexemes, x.Spaced cs) :
    (state.line? = none → Lined state.indents (stream.tokens.map Lexeme.token) stream.lines) ∧
      ∀ line, state.line? = some line → ∃ body ts lines,
        stream.tokens.map Lexeme.token = body ++ .newline :: ts ∧
        stream.lines = { line with opensBlock := opensAfter line.opensBlock body } :: lines ∧
        (∀ t ∈ body, t.isMark = false) ∧ Lined state.indents ts lines := by
  induction lexemes generalizing read state stream with
  | nil =>
    obtain ⟨-, ⟨hline, rfl⟩ | ⟨line, hline, rfl⟩⟩ := finish_cases hrun
    · refine ⟨fun _ => ?_, by simp [hline]⟩
      simpa using Lined.done
    · refine ⟨by simp [hline], fun found hfound => ?_⟩
      obtain rfl : line = found := Option.some.inj (hline.symm.trans hfound)
      exact ⟨[], _, [], by simp, rfl, by simp, .done⟩
  | cons lexeme lexemes ih =>
    obtain ⟨next, more, ended, tail, hstep, htail, rfl⟩ := run_cons hrun
    rw [List.forall_mem_cons] at hscanned
    rw [lineFirstsAfter, List.forall_mem_append] at hspaced
    obtain ⟨hnone, hsome⟩ := ih htail (htracks.step hstep) hscanned.2 hspaced.2
    cases hstep with
    | blank | inner => exact ⟨hnone, hsome⟩
    | @ending line hnewline hline =>
      refine ⟨by simp [hline], fun found hfound => ?_⟩
      obtain rfl : line = found := Option.some.inj (hline.symm.trans hfound)
      exact ⟨[], _, tail.lines, by simp [hnewline], rfl, by simp, hnone rfl⟩
    | @first indents marks brackets hother hline hindent =>
      refine ⟨fun _ => ?_, by simp [hline]⟩
      obtain ⟨body, ts, lines, htokens, hlines, hbody, hlined⟩ := hsome _ rfl
      have hbegins := htracks.begins_iff.mpr ⟨hother, hline⟩
      have hfirst := hspaced.1 lexeme (by simp [hbegins])
      have hplain := isMark_eq_false hother hscanned.1
      have hlined : Lined state.indents (marks ++ (lexeme.token :: body ++ .newline :: ts))
          tail.lines := by
        rw [hlines]
        refine .line ?_ ?_ (List.forall_mem_cons.mpr ⟨hplain, hbody⟩) (List.cons_ne_nil _ _)
          (opensAfter_eq (List.cons_ne_nil _ _) false) hlined
        · rw [indentText_length hfirst]
          exact hindent
        · simp [indentText_spaces hfirst]
      simpa [htokens, Function.comp_def] using hlined
    | @further line brackets hother hline =>
      refine ⟨by simp [hline], fun found hfound => ?_⟩
      obtain rfl : line = found := Option.some.inj (hline.symm.trans hfound)
      obtain ⟨body, ts, lines, htokens, hlines, hbody, hlined⟩ := hsome _ rfl
      exact ⟨lexeme.token :: body, ts, lines, by simp [htokens], hlines,
        List.forall_mem_cons.mpr ⟨isMark_eq_false hother hscanned.1, hbody⟩, hlined⟩

end Layout

/-! ### How deep lines are -/

/-- How many blocks are open at each line, told where it ends: the indents before it, less
the dedents. -/
def lineDepths (depth : Nat) : List Token → List Nat
  | [] => []
  | .indent :: ts => lineDepths (depth + 1) ts
  | .dedent :: ts => lineDepths (depth - 1) ts
  | .newline :: ts => depth :: lineDepths depth ts
  | _ :: ts => lineDepths depth ts

theorem lineDepths_dedents (depth k : Nat) (ts : List Token) :
    lineDepths depth (List.replicate k .dedent ++ ts) = lineDepths (depth - k) ts := by
  induction k generalizing depth with
  | zero => rfl
  | succ k ih =>
    rw [List.replicate_succ, List.cons_append, lineDepths, ih, Nat.sub_sub, Nat.add_comm]

/-- Behind the last line blocks are only closed. -/
theorem lineDepths_closing (depth k : Nat) : lineDepths depth (List.replicate k .dedent) = [] := by
  rw [← List.append_nil (List.replicate k Token.dedent), lineDepths_dedents]
  rfl

theorem lineDepths_line {body : List Token} (hbody : ∀ t ∈ body, t.isMark = false) (depth : Nat)
    (ts : List Token) :
    lineDepths depth (body ++ .newline :: ts) = depth :: lineDepths depth ts := by
  induction body with
  | nil => rfl
  | cons t body ih =>
    rw [List.forall_mem_cons] at hbody
    rw [← ih hbody.2, List.cons_append]
    cases t with
    | newline | indent | dedent => simp [Token.isMark] at hbody
    | _ => rfl

/-- Every line has its depth. -/
theorem Lined.length_lineDepths {indents : List Nat} {lines : List LogicalLine}
    (h : Lined indents ts lines) (depth : Nat) : (lineDepths depth ts).length = lines.length := by
  induction h generalizing depth with
  | @done indents =>
    rw [lineDepths_closing]
    rfl
  | @line indents kept marks body ts line lines hindent hspaces hbody hne hopens hrest ih =>
    rcases Layout.reindent?_cases hindent with ⟨-, rfl⟩ | ⟨left, -, -, rfl⟩
    · rw [List.singleton_append, lineDepths, lineDepths_line hbody, List.length_cons, ih,
        List.length_cons]
    · rw [lineDepths_dedents, lineDepths_line hbody, List.length_cons, ih, List.length_cons]

namespace Spot

/-- Where a line leads that opens a block or not. -/
def behind (opened : Bool) : Spot := if opened then due else start

theorem walk_dedents (k : Nat) (ts : List Token) :
    start.walk (List.replicate k .dedent ++ ts) = start.walk ts := by
  induction k with
  | zero => rfl
  | succ k ih => rw [List.replicate_succ, List.cons_append, walk_cons, step, Option.bind_some, ih]

/-- Where a block is due nothing but an indent may come. -/
theorem walk_due {t : Token} (ht : t ≠ .indent) (ts : List Token) : due.walk (t :: ts) = none := by
  rw [walk_cons]
  cases t with
  | indent => exact absurd rfl ht
  | _ => rfl

section

variable {body : List Token} (hbody : ∀ t ∈ body, t.isMark = false) (hne : body ≠ [])

include hbody hne

theorem walk_line (ts : List Token) : start.walk (body ++ .newline :: ts)
      = (behind (body.getLast? == some (.symbol .colon))).walk ts := by
  rw [walk_append, walk_plain (by simp [Free]) hbody hne, Option.bind_some, walk_cons, step,
    Option.bind_some, behind]

/-- A line that is deeper comes only where a block is due. -/
theorem walk_deeper
    (hwalk : (behind opened).walk ([.indent] ++ (body ++ .newline :: ts)) = some start) :
    opened = true ∧ (behind (body.getLast? == some (.symbol .colon))).walk ts = some start := by
  cases opened with
  | false => simp [behind, step, Token.isMark] at hwalk
  | true => exact ⟨rfl, (walk_line hbody hne ts).symm.trans hwalk⟩

/-- Any other line comes only where no block is due. -/
theorem walk_back {k : Nat}
    (hwalk : (behind opened).walk (List.replicate k .dedent ++ (body ++ .newline :: ts))
      = some start) :
    opened = false ∧ (behind (body.getLast? == some (.symbol .colon))).walk ts = some start := by
  cases opened with
  | false =>
    refine ⟨rfl, ?_⟩
    rw [← walk_line hbody hne, ← walk_dedents k]
    exact hwalk
  | true =>
    have hnone : due.walk (List.replicate k .dedent ++ (body ++ .newline :: ts)) = none := by
      cases k with
      | succ k => exact walk_due Token.noConfusion _
      | zero =>
        obtain ⟨t, body, rfl⟩ := List.exists_cons_of_ne_nil hne
        refine walk_due (fun hindent => ?_) _
        have ht := hbody t List.mem_cons_self
        simp [hindent, Token.isMark] at ht
    rw [behind, if_pos rfl, hnone] at hwalk
    simp at hwalk

end

end Spot

/-! ### The levels of the check -/

namespace Indentation

variable {size w : Nat} {indents : List Nat}

/-- The levels that blocks are at, one in another, innermost first. -/
def levelsTo (size : Nat) : Nat → List Nat
  | 0 => []
  | depth + 1 => size * (depth + 1) :: levelsTo size depth

theorem headD_levelsTo (size depth : Nat) : (levelsTo size depth).headD 0 = size * depth := by
  cases depth <;> rfl

theorem length_levelsTo (size depth : Nat) : (levelsTo size depth).length = depth := by
  induction depth with
  | zero => rfl
  | succ depth ih => rw [levelsTo, List.length_cons, ih]

/-- Leaving blocks leaves the others as they are. -/
theorem eq_levelsTo_of_suffix {kept : List Nat} (h : kept <:+ levelsTo size depth) :
    kept = levelsTo size kept.length := by
  induction depth with
  | zero => rw [List.suffix_nil.mp h]; rfl
  | succ depth ih =>
    rcases List.suffix_cons_iff.mp h with rfl | h
    · rw [List.length_cons, length_levelsTo, levelsTo]
    · exact ih h

theorem head?_margin (indents : List Nat) : (indents ++ [0]).head? = some (indents.headD 0) := by
  cases indents <;> rfl

/-- A line that goes back to an open level, or stays at it, is expected there. -/
theorem meet_back (hle : w ≤ indents.headD 0) (hlevel : (indents.dropWhile (w < ·)).headD 0 = w) :
    meet (indents ++ [0]) w = (indents.dropWhile (w < ·) ++ [0], none) := by
  have htop : (indents ++ [0]).headD 0 = indents.headD 0 := by
    rw [List.headD_eq_head?_getD, head?_margin, Option.getD_some]
  have hdrop : (indents ++ [0]).dropWhile (w < ·) = indents.dropWhile (w < ·) ++ [0] := by
    rw [List.dropWhile_append]
    split
    · rename_i hempty
      simp [List.isEmpty_iff.mp hempty]
    · rfl
  unfold meet
  dsimp only
  rw [htop, hdrop, head?_margin, hlevel, if_neg (Nat.not_lt.mpr hle), if_pos rfl]
  split
  · rename_i hsame
    cases indents with
    | nil => rfl
    | cons top indents => rw [List.dropWhile_cons_of_neg (by simp_all)]
  · rfl

/-- Deeper than the open levels, a line is expected only where the last one opens a block. -/
theorem meet_deeper (hdeeper : indents.headD 0 < w) (level : Nat) :
    (meet (level :: (indents ++ [0])) w).2 = none ↔ w = level := by
  have hdrop : (indents ++ [0]).dropWhile (w < ·) = indents ++ [0] := by
    cases indents with
    | nil => rfl
    | cons top indents =>
      exact List.dropWhile_cons_of_neg (by simpa using Nat.le_of_lt hdeeper)
  unfold meet
  dsimp only
  rw [List.headD_cons]
  split
  · simp_all
  · rename_i hother
    split
    · simp [hother]
    · rename_i hnot
      have hlevel : w < level := by omega
      have hnone : indents.headD 0 ≠ w := by omega
      rw [List.dropWhile_cons_of_pos (by simpa using hlevel), hdrop, head?_margin,
        if_neg (by simpa using hnone)]
      simp [hother]

/-- The levels of the check behind a line that opens a block or not. -/
def expected (size depth : Nat) (opened : Bool) : List Nat :=
  if opened then size * (depth + 1) :: (levelsTo size depth ++ [0]) else levelsTo size depth ++ [0]

variable (hspaces : '\t' ∉ line.indent.toList)

include hspaces

/-- A line is without fault if it is expected where it is, and so are the lines behind it. -/
theorem faultsFrom_cons_eq_nil
    (levels : List Nat) (lines : List LogicalLine) :
    faultsFrom size levels (line :: lines) = [] ↔
      (meet levels line.indent.length).2 = none ∧
        faultsFrom size (if line.opensBlock
          then (line.indent.length + size) :: (meet levels line.indent.length).1
          else (meet levels line.indent.length).1) lines = [] := by
  have hmixed : isMixed line.indent.toList = false := by simp [isMixed, hspaces]
  simp [faultsFrom, hmixed, String.length_toList]

/-- A line where it is expected leads to the levels behind it. -/
theorem faultsFrom_cons_expected {levels : List Nat} (hwidth : line.indent.length = size * depth)
    (hmeet : meet levels line.indent.length = (levelsTo size depth ++ [0], none))
    (lines : List LogicalLine) : faultsFrom size levels (line :: lines) = [] ↔
      faultsFrom size (expected size depth line.opensBlock) lines = [] := by
  rw [faultsFrom_cons_eq_nil hspaces, hmeet, hwidth, expected, Nat.mul_succ]
  simp

/-- The first line of a block has to be one width in. -/
theorem faultsFrom_cons_deeper
    (hdeeper : (levelsTo size depth).headD 0 < line.indent.length) (lines : List LogicalLine) :
    faultsFrom size (expected size depth true) (line :: lines) = [] ↔
      line.indent.length = size * (depth + 1) ∧
        faultsFrom size (expected size (depth + 1) line.opensBlock) lines = [] := by
  by_cases hwidth : line.indent.length = size * (depth + 1)
  · have hmeet : meet (expected size depth true) line.indent.length
        = (levelsTo size (depth + 1) ++ [0], none) := by
      rw [hwidth]
      simp [meet, expected, levelsTo]
    rw [faultsFrom_cons_expected hspaces hwidth hmeet]
    exact (and_iff_right hwidth).symm
  · have hfault := (meet_deeper hdeeper (size * (depth + 1))).not.mpr hwidth
    refine iff_of_false (fun h => hfault ?_) fun h => hwidth h.1
    exact ((faultsFrom_cons_eq_nil hspaces _ lines).mp h).1

/-- A line of a block that was open before is as wide as the others of it. -/
theorem faultsFrom_cons_back
    {inner : Nat} (hle : line.indent.length ≤ (levelsTo size depth).headD 0)
    (hkept : levelsTo size inner = (levelsTo size depth).dropWhile (line.indent.length < ·))
    (hwidth : line.indent.length = size * inner) (lines : List LogicalLine) :
    faultsFrom size (expected size depth false) (line :: lines) = [] ↔
      faultsFrom size (expected size inner line.opensBlock) lines = [] := by
  refine faultsFrom_cons_expected hspaces hwidth ?_ lines
  rw [hkept]
  refine meet_back hle ?_
  rw [← hkept, headD_levelsTo, hwidth]

omit hspaces

/-- As long as lines are in line, the check and the layout have the same levels. -/
theorem faultsFrom_lined {lines : List LogicalLine}
    (h : Lined indents ts lines) (hindents : indents = levelsTo size depth)
    (hwalk : (Spot.behind opened).walk ts = some .start) :
    faultsFrom size (expected size depth opened) lines = [] ↔
      lines.map (·.indent.length) = (lineDepths depth ts).map (size * ·) := by
  induction h generalizing depth opened with
  | @done indents =>
    rw [lineDepths_closing]
    simp [faultsFrom]
  | @line indents kept marks body ts line lines hindent hspaces hbody hne hopens hrest ih =>
    subst hindents
    rcases Layout.reindent?_deeper_or_back hindent with
      ⟨hdeeper, rfl, rfl⟩ | ⟨hle, hkept, hlevel, rfl⟩
    · -- A deeper line is the first of a block, which the line before must have opened.
      obtain ⟨rfl, hnext⟩ := Spot.walk_deeper hbody hne hwalk
      rw [← hopens] at hnext
      have hdepths : lineDepths depth ([.indent] ++ (body ++ .newline :: ts))
          = (depth + 1) :: lineDepths (depth + 1) ts := lineDepths_line hbody (depth + 1) ts
      rw [faultsFrom_cons_deeper hspaces hdeeper, hdepths, List.map_cons, List.map_cons,
        List.cons.injEq]
      refine and_congr_right fun hwidth => ih ?_ hnext
      rw [hwidth, levelsTo]
    · -- Any other line is in a block that was open before.
      obtain ⟨rfl, hnext⟩ := Spot.walk_back hbody hne hwalk
      rw [← hopens] at hnext
      have hsuffix : kept <:+ levelsTo size depth := hkept ▸ List.dropWhile_suffix _
      have hinner := eq_levelsTo_of_suffix hsuffix
      have hwidth : line.indent.length = size * kept.length := by
        rw [← hlevel, ← headD_levelsTo, ← hinner]
      have hdepth : depth - (depth - kept.length) = kept.length := by
        have hshorter := hsuffix.length_le
        rw [length_levelsTo] at hshorter
        omega
      rw [faultsFrom_cons_back hspaces hle (hinner ▸ hkept) hwidth, ih hinner hnext,
        lineDepths_dedents, lineDepths_line hbody, length_levelsTo, hdepth]
      simp [hwidth]

end Indentation

/-- **Nothing is reported just if every line is indented by the configured width for every
block that it is in**, where there are no tabs and form feeds in front of lines. -/
theorem indentation_silent_iff {source : String} {tree : Tree} (h : buildTree source = .ok tree)
    (hspaced : ∀ first ∈ lineFirsts (lexemesFrom 0 (pieces source.toList)),
      first.Spaced source.toList) (config : Config) : ∃ stream, tokenize source = .ok stream ∧
      tree.logicalLines.map (·.indent.length)
        = lineWidths source.toList (lexemesFrom 0 (pieces source.toList)) ∧
      (lineDepths 0 (stream.tokens.map Lexeme.token)).length = tree.logicalLines.length ∧
      (Indentation.check.findings ⟨source, tree, config⟩ = [] ↔
        tree.logicalLines.map (·.indent.length)
          = (lineDepths 0 (stream.tokens.map Lexeme.token)).map (config.indentSize * ·)) := by
  obtain ⟨error, hfails⟩ | ⟨module, stream, htokens, hparse, htree⟩ := fails_or_parses source
  · rw [hfails.buildTree_eq] at h
    simp at h
  obtain rfl : tree = ⟨module, .ofText source.toList, stream.lines⟩ := by
    simpa using h.symm.trans htree
  -- The tokens fall into lines, and blocks are where the grammar has them.
  obtain ⟨lexemes, hscan, hrun⟩ := tokenize_run htokens
  obtain ⟨-, rfl⟩ := scan_pieces hscan
  have hscanned := (scan_scanned hscan).stands
  obtain ⟨hrest, -⟩ :=
    Layout.run_lined hrun (.initial _) (fun x hx => (hscanned x hx).token_ne) hspaced
  have hlined := hrest rfl
  refine ⟨stream, htokens, Layout.run_widths hrun hspaced, hlined.length_lineDepths 0, ?_⟩
  obtain ⟨stream', last, htokens', hread⟩ := parse_cases hparse
  obtain rfl : stream' = stream := by simpa using htokens'.symm.trans htokens
  have hwalk := Grammar.moduleUpTo_walk hread
  have hfaults : Indentation.faultsFrom config.indentSize
      (Indentation.expected config.indentSize 0 false) stream'.lines = [] ↔ _ :=
    Indentation.faultsFrom_lined hlined rfl hwalk
  rw [← hfaults]
  exact List.map_eq_nil_iff

/-- Blocks that are four wide. -/
theorem indentation_silent_iff_four : ∃ tree,
    buildTree "if x:\n    if y: z\n    else:\n        z\nw\n" = .ok tree ∧
    ∀ config, config.indentSize = 4 ↔ Indentation.check.findings
      ⟨"if x:\n    if y: z\n    else:\n        z\nw\n", tree, config⟩ = [] := by
  have hlines : (buildTree "if x:\n    if y: z\n    else:\n        z\nw\n").toOption.map
      (fun tree => tree.logicalLines.map (·.indent.length)) = some [0, 4, 4, 8, 0] := by
    decide +kernel
  have hdepths : (tokenize "if x:\n    if y: z\n    else:\n        z\nw\n").toOption.map
      (fun stream => lineDepths 0 (stream.tokens.map Lexeme.token)) = some [0, 1, 1, 2, 0] := by
    decide +kernel
  cases h : buildTree "if x:\n    if y: z\n    else:\n        z\nw\n" with
  | error failure =>
    rw [h] at hlines
    cases hlines
  | ok tree =>
    rw [h] at hlines
    refine ⟨tree, rfl, fun config => ?_⟩
    obtain ⟨stream, htokens, -, -, hsilent⟩ := indentation_silent_iff h (by decide +kernel) config
    rw [htokens] at hdepths
    have hwidths : tree.logicalLines.map (·.indent.length) = _ := Option.some.inj hlines
    have hdepths : lineDepths 0 (stream.tokens.map Lexeme.token) = _ := Option.some.inj hdepths
    rw [hsilent, hwidths, hdepths]
    simp only [List.map_cons, List.map_nil, List.cons.injEq, and_true]
    omega

end Scrutiny
