/-
Token streams written out.

Any token stream can be written as a text again: each logical line on a line of its own,
behind one space for every block that is open there, its tokens with a space between
(`TokenStream.render`).  That text has the same tokens in the same blocks
(`tokenize_render`), whatever the spaces, tabs, comments and joined lines of the text the
stream came from.

What the layout puts out is described once, by `Laid`: lines of tokens with their brackets
closed, each behind the marks of its change of depth.  Every stream is laid so
(`tokenize_laid`), and everything laid so is read back from its rendering (`Laid.read_back`),
because a token with a space or a newline behind it stands alone.
-/
import Scrutiny.Proofs.Token.Apart
import Scrutiny.Proofs.Token.Joining
import Scrutiny.Proofs.Token.Nesting

namespace Scrutiny

variable {depth : Nat} {lexeme : Lexeme} {marks ts : List Token} {state : State}
  {stream : TokenStream} {t : Token}

/-! ### Rendering -/

/-- Tokens in lines: before the first token of a line stands one space for every open
block, and before all others one space. -/
def render (depth : Nat) (first : Bool) : List Token → List Char
  | [] => []
  | .indent :: ts => render (depth + 1) first ts
  | .dedent :: ts => render (depth - 1) first ts
  | .newline :: ts => '\n' :: render depth true ts
  | t :: ts =>
    List.replicate (if first then depth else 1) ' ' ++ t.text.toList ++ render depth false ts

/-- The text that a token stream is written as. -/
def TokenStream.render (stream : TokenStream) : String :=
  String.ofList (Scrutiny.render 0 true (stream.tokens.map Lexeme.token))

/-- How the marks before a line change the depth. -/
inductive Reindents : Nat → Nat → List Token → Prop
  | deeper (depth : Nat) : Reindents depth (depth + 1) [.indent]
  | back (depth left : Nat) : Reindents (depth + left) depth (List.replicate left .dedent)

theorem render_dedents (depth left : Nat) (first : Bool) (ts : List Token) :
    render (depth + left) first (List.replicate left .dedent ++ ts) = render depth first ts := by
  induction left with
  | zero => rfl
  | succ left ih =>
    rw [List.replicate_succ, List.cons_append, render, ← Nat.add_assoc, Nat.add_sub_cancel]
    exact ih

theorem Reindents.render {old : Nat} (h : Reindents old depth marks)
    (first : Bool) (ts : List Token) :
    Scrutiny.render old first (marks ++ ts) = Scrutiny.render depth first ts := by
  cases h with
  | deeper => rfl
  | back left => exact render_dedents depth _ first ts

theorem render_plain (ht : t.isMark = false) (depth : Nat) (first : Bool)
    (ts : List Token) :
    render depth first (t :: ts) = List.replicate (if first then depth else 1) ' ' ++
      (t.text.toList ++ render depth false ts) := by
  cases t with
  | newline | indent | dedent => cases ht
  | _ => rw [← List.append_assoc]; rfl

/-! ### What is laid out -/

/-- The brackets open before a token and after it, innermost first. -/
inductive Token.Nests : Token → List Bracket → List Bracket → Prop
  | opening (b : Bracket) (stack : List Bracket) : Nests (.symbol (.opening b)) stack (b :: stack)
  | closing (b : Bracket) (stack : List Bracket) : Nests (.symbol (.closing b)) (b :: stack) stack
  | other {t : Token} (hother : ∀ b, t ≠ .symbol (.opening b) ∧ t ≠ .symbol (.closing b))
      (stack : List Bracket) : Nests t stack stack

/-- Tokens as the layout puts them out, from a place on where so many blocks are open and,
within a line, so many brackets. -/
inductive Laid : Nat → Option (List Bracket) → List Token → Prop
  | done (depth : Nat) : Laid depth none (List.replicate depth .dedent)
  | first {old depth : Nat} {marks ts : List Token} {t : Token} {stack : List Bracket}
      (hmarks : Reindents old depth marks) (hplain : t.isMark = false) (halone : t.StandsAlone)
      (hnests : t.Nests [] stack) (hrest : Laid depth (some stack) ts) :
      Laid old none (marks ++ t :: ts)
  | further {depth : Nat} {ts : List Token} {t : Token} {stack next : List Bracket}
      (hplain : t.isMark = false) (halone : t.StandsAlone) (hnests : t.Nests stack next)
      (hrest : Laid depth (some next) ts) : Laid depth (some stack) (t :: ts)
  | ending {depth : Nat} {ts : List Token} (hrest : Laid depth none ts) :
      Laid depth (some []) (.newline :: ts)

/-- Within a line something follows, and what follows stands apart. -/
theorem Laid.apart {stack : List Bracket}
    (h : Laid depth (some stack) ts) : Apart (render depth false ts) := by
  cases h with
  | further hplain halone hnests hrest =>
    rw [render_plain hplain]
    exact ⟨' ', _, rfl, Or.inl rfl⟩
  | ending hrest => exact ⟨'\n', _, rfl, Or.inr rfl⟩

namespace Layout

variable {cs : List Char} {table : LineTable}

/-- The brackets open in the line in progress, if there is one. -/
def State.stack? (state : State) : Option (List Bracket) :=
  state.line?.map fun _ => state.brackets.map Prod.fst

theorem matchBrackets_nests {brackets next : List (Bracket × Span)}
    (h : matchBrackets brackets lexeme = .ok next) :
    lexeme.token.Nests (brackets.map Prod.fst) (next.map Prod.fst) := by
  rcases matchBrackets_cases h with ⟨b, htoken, rfl⟩ | ⟨b, span, htoken, rfl⟩ | ⟨hother, rfl⟩
  · rw [htoken]
    exact .opening b _
  · rw [htoken]
    exact .closing b _
  · exact .other hother _

/-- What the first token of a line puts out. -/
theorem map_token_marks (marks : List Token) (span : Span) (lexeme : Lexeme) (ts : List Token) :
    (marks.map (fun mark => (⟨mark, span⟩ : Lexeme)) ++ [lexeme]).map Lexeme.token ++ ts
      = marks ++ lexeme.token :: ts := by
  simp [Function.comp_def]

theorem Step.laid {next : State} {more : List Lexeme}
    {ended : List LogicalLine} (h : Step cs table state lexeme next more ended)
    (hopen : state.brackets ≠ [] → state.line? ≠ none)
    (hlexeme : lexeme.token ≠ .newline → lexeme.token.isMark = false ∧ lexeme.token.StandsAlone)
    (hts : Laid next.indents.length next.stack? ts) :
    Laid state.indents.length state.stack? (more.map Lexeme.token ++ ts) := by
  cases h with
  | blank hnewline hline => exact hts
  | inner hnewline hinside => exact hts
  | ending hnewline hline hclosed =>
    have hstack : state.stack? = some [] := by simp [State.stack?, hline, hclosed]
    rw [hstack, List.map_singleton, hnewline]
    exact .ending hts
  | further hother hline hbrackets =>
    have hstack : state.stack? = some (state.brackets.map Prod.fst) := by
      simp [State.stack?, hline]
    rw [hstack]
    exact .further (hlexeme hother).1 (hlexeme hother).2 (matchBrackets_nests hbrackets) hts
  | @first indents marks brackets hother hline hindent hbrackets =>
    have hclosed : state.brackets = [] := by
      by_contra hinside
      exact hopen hinside hline
    have hstack : state.stack? = none := by simp [State.stack?, hline]
    have hnests := matchBrackets_nests hbrackets
    rw [hclosed] at hnests
    have hmarks : Reindents state.indents.length indents.length marks := by
      rcases reindent?_cases hindent with ⟨rfl, rfl⟩ | ⟨left, -, hlength, rfl⟩
      · exact .deeper _
      · rw [← hlength]
        exact .back _ _
    rw [hstack, map_token_marks]
    exact .first hmarks (hlexeme hother).1 (hlexeme hother).2 hnests hts

theorem Steps.laid {read out : List Lexeme} {lines : List LogicalLine}
    (h : Steps cs table .initial read state out lines)
    (hread : ∀ lexeme ∈ read, lexeme.token ≠ .newline →
      lexeme.token.isMark = false ∧ lexeme.token.StandsAlone)
    (hts : Laid state.indents.length state.stack? ts) :
    Laid 0 none (out.map Lexeme.token ++ ts) := by
  induction h generalizing ts with
  | nil => exact hts
  | snoc hsteps hstep ih =>
    rw [List.map_append, List.append_assoc]
    have hopen := hsteps.line_of_open (fun hopen => absurd rfl hopen)
    refine ih (fun lexeme hlexeme => hread lexeme (List.mem_append_left _ hlexeme)) ?_
    exact hstep.laid hopen (hread _ (List.mem_append_right _ (List.mem_singleton_self _))) hts

theorem finish_laid {size : Nat} {rest : TokenStream} (h : finish size state = .ok rest) :
    Laid state.indents.length state.stack? (rest.tokens.map Lexeme.token) := by
  obtain ⟨hclosed, ⟨hline, rfl⟩ | ⟨line, hline, rfl⟩⟩ := finish_cases h
  · rw [State.stack?, hline, List.map_replicate]
    exact .done _
  · rw [State.stack?, hline, hclosed, List.map_cons, List.map_replicate]
    exact .ending (.done _)

end Layout

/-- A token that was scanned is a newline or stands alone. -/
theorem scan_standsAlone {cs : List Char} {lexemes : List Lexeme} (h : scan cs = .ok lexemes) :
    ∀ lexeme ∈ lexemes, lexeme.token ≠ .newline →
      lexeme.token.isMark = false ∧ lexeme.token.StandsAlone := by
  intro lexeme hlexeme hother
  refine ⟨Layout.isMark_eq_false hother ((scan_scanned h).stands lexeme hlexeme).token_ne, ?_⟩
  obtain ⟨-, rfl⟩ := scan_pieces h
  obtain ⟨ahead, n, hread⟩ := readToken?_of_mem_lexemesFrom hlexeme
  exact readToken?_standsAlone hread hother

/-- Every token stream is laid out so. -/
theorem tokenize_laid {source : String} (h : tokenize source = .ok stream) :
    Laid 0 none (stream.tokens.map Lexeme.token) := by
  obtain ⟨lexemes, last, out, lines, rest, hscan, hsteps, hfinish, rfl⟩ := tokenize_steps h
  rw [List.map_append]
  exact hsteps.laid (scan_standsAlone hscan) (Layout.finish_laid hfinish)

/-! ### The rendering read back -/

/-- What is read at the front is the first piece. -/
theorem pieces_of_readPiece {kind : PieceKind} {text cs : List Char} (hne : text ≠ [])
    (h : readPiece (text ++ cs) = (kind, text.length)) :
    pieces (text ++ cs) = ⟨kind, text⟩ :: pieces cs := by
  obtain ⟨c, rest, rfl⟩ := List.exists_cons_of_ne_nil hne
  rw [List.cons_append] at h ⊢
  rw [pieces_cons, h]
  simp

theorem byteLength_spaces (k : Nat) : byteLength (List.replicate k ' ') = k := by
  induction k with
  | zero => rfl
  | succ k ih =>
    have hspace : (' ' : Char).utf8Size = 1 := rfl
    rw [List.replicate_succ, byteLength_cons, ih, hspace, Nat.add_comm]

/-- A text has these tokens from byte `offset` on, and nothing in it is wrong. -/
structure Cut (offset : Nat) (cs : List Char) (lexemes : List Lexeme) : Prop where
  lexemes : lexemesFrom offset (pieces cs) = lexemes
  faults : faultsFrom offset (pieces cs) = []

namespace Cut

variable {offset : Nat} {cs : List Char} {lexemes : List Lexeme}

theorem nil (offset : Nat) : Cut offset [] [] := by
  constructor
  · rw [pieces, lexemesFrom]
  · rw [pieces, faultsFrom]

theorem scan (h : Cut 0 cs lexemes) : Scrutiny.scan cs = .ok lexemes := by
  unfold Scrutiny.scan
  simp only [h.faults, h.lexemes, List.map_nil]

theorem newline (h : Cut (offset + 1) cs lexemes) :
    Cut offset ('\n' :: cs) (⟨.newline, ⟨offset, offset + 1⟩⟩ :: lexemes) := by
  have hpieces : pieces (['\n'] ++ cs) = ⟨.token .newline, ['\n']⟩ :: pieces cs :=
    pieces_of_readPiece (by simp) rfl
  have hsize : byteLength ['\n'] = 1 := rfl
  rw [List.singleton_append] at hpieces
  constructor
  · rw [hpieces, lexemesFrom, hsize, h.lexemes]
  · rw [hpieces, faultsFrom, hsize, h.faults]

/-- A gap is passed over. -/
theorem gap {text : List Char} (hne : text ≠ []) (hgap : gapLength? (text ++ cs) = some text.length)
    (h : Cut (offset + byteLength text) cs lexemes) : Cut offset (text ++ cs) lexemes := by
  have hread : readPiece (text ++ cs) = (.gap, text.length) := by rw [readPiece, hgap]
  have hpieces := pieces_of_readPiece hne hread
  constructor
  · rw [hpieces, lexemesFrom, h.lexemes]
  · rw [hpieces, faultsFrom, h.faults]

/-- White space before a character of another kind is a gap. -/
theorem spacing {run : List Char} (hrun : ∀ c ∈ run, isSpacing c = true) {c : Char}
    (hc : isSpacing c = false) {rest : List Char}
    (h : Cut (offset + byteLength run) (c :: rest) lexemes) :
    Cut offset (run ++ c :: rest) lexemes := by
  cases run with
  | nil => exact h
  | cons d run =>
    rw [List.forall_mem_cons] at hrun
    have hlength : runLength isSpacing (run ++ c :: rest) = run.length :=
      runLength_of_head hrun.2 (by simpa using hc)
    refine gap (List.cons_ne_nil d run) ?_ h
    rw [List.cons_append, gapLength?, if_pos hrun.1, hlength, List.length_cons, Nat.add_comm]

/-- Spaces before a character of another kind are a gap. -/
theorem spaces {c : Char} (hc : c ∉ breaks) {rest : List Char} (k : Nat)
    (h : Cut (offset + k) (c :: rest) lexemes) :
    Cut offset (List.replicate k ' ' ++ c :: rest) lexemes := by
  have hspacing : isSpacing c = false := by
    simp only [breaks, List.mem_cons, List.not_mem_nil, or_false, not_or] at hc
    simp [isSpacing, hc]
  refine spacing (fun d hd => ?_) hspacing (by rwa [byteLength_spaces])
  rw [List.eq_of_mem_replicate hd]
  rfl

/-- A token that stands alone, behind some spaces. -/
theorem token {t : Token} (halone : t.StandsAlone) (hcs : Apart cs) (k : Nat)
    (h : Cut (offset + k + byteLength t.text.toList) cs lexemes) :
    Cut offset (List.replicate k ' ' ++ (t.text.toList ++ cs))
      (⟨t, ⟨offset + k, offset + k + byteLength t.text.toList⟩⟩ :: lexemes) := by
  obtain ⟨c, rest, htext, hc⟩ := halone.head
  have hread : readPiece (t.text.toList ++ cs) = (.token t, t.text.toList.length) := by
    rw [readPiece, halone.read hcs, htext, List.cons_append, gapLength?_of_head hc]
  have hpieces := pieces_of_readPiece (by rw [htext]; simp) hread
  have hcut : Cut (offset + k) (t.text.toList ++ cs)
      (⟨t, ⟨offset + k, offset + k + byteLength t.text.toList⟩⟩ :: lexemes) := by
    constructor
    · rw [hpieces, lexemesFrom, h.lexemes]
    · rw [hpieces, faultsFrom, h.faults]
  rw [htext, List.cons_append] at hcut ⊢
  exact spaces hc k hcut

end Cut

namespace Layout

variable {cs : List Char} {table : LineTable}

/-- The widths of blocks that are indented by one space each, innermost first. -/
def levels : Nat → List Nat
  | 0 => []
  | depth + 1 => (depth + 1) :: levels depth

theorem length_levels (depth : Nat) : (levels depth).length = depth := by
  induction depth with
  | zero => rfl
  | succ depth ih => rw [levels, List.length_cons, ih]

theorem headD_levels (depth : Nat) : (levels depth).headD 0 = depth := by
  cases depth with
  | zero => rfl
  | succ depth => rfl

theorem dropWhile_levels (depth left : Nat) :
    (levels (depth + left)).dropWhile (depth < ·) = levels depth := by
  induction left with
  | zero =>
    cases depth with
    | zero => rfl
    | succ depth => simp [levels]
  | succ left ih =>
    have hdeeper : decide (depth < depth + left + 1) = true := decide_eq_true (by omega)
    rw [← Nat.add_assoc, levels, List.dropWhile_cons, hdeeper]
    exact ih

theorem reindent?_levels {old : Nat} (h : Reindents old depth marks) :
    reindent? (levels old) depth = some (levels depth, marks) := by
  unfold reindent?
  simp only [headD_levels]
  cases h with
  | deeper => rw [if_pos (Nat.lt_succ_self old)]; rfl
  | back left =>
    rw [if_neg (by omega), dropWhile_levels, if_pos (headD_levels depth), length_levels,
      length_levels, Nat.add_sub_cancel_left]

theorem width_spaces (k : Nat) : width (List.replicate k ' ') = k := by
  have hfrom : ∀ column, (List.replicate k ' ').foldl advance column = column + k := by
    induction k with
    | zero => exact fun column => rfl
    | succ k ih =>
      intro column
      have hone : advance column ' ' = column + 1 := rfl
      rw [List.replicate_succ, List.foldl_cons, hone, ih, Nat.add_right_comm, Nat.add_assoc]
  rw [width, hfrom, Nat.zero_add]

/-- What stands before the first token of a line. -/
theorem lineHead_spaces {before : List Char} (hbefore : WholeLines before) (k : Nat)
    (rest : List Char) : lineHead (before ++ (List.replicate k ' ' ++ rest)) (byteLength before + k)
      = List.replicate k ' ' := by
  have hsplit : splitAtByte? k (List.replicate k ' ' ++ rest)
      = some (List.replicate k ' ', rest) := by
    have hat := splitAtByte?_append (List.replicate k ' ') rest
    rwa [byteLength_spaces] at hat
  have hspaces : (List.replicate k ' ').takeWhile (· != '\n') = List.replicate k ' ' := by
    rw [List.takeWhile_eq_self_iff]
    intro c hc
    rw [List.eq_of_mem_replicate hc]
    rfl
  have hhead : lineHead (List.replicate k ' ' ++ rest) k = List.replicate k ' ' := by
    rw [lineHead, hsplit]
    simp only [List.reverse_replicate, hspaces]
  rcases hbefore with rfl | hends
  · rw [List.nil_append, byteLength_nil, Nat.zero_add, hhead]
  · rw [Nat.add_comm, lineHead_shift hends, hhead]

/-- A state in which so many blocks are open, one space each, and within a line so many
brackets. -/
structure State.Stands (state : State) (depth : Nat) (stack? : Option (List Bracket)) : Prop where
  indents : state.indents = levels depth
  brackets : state.brackets.map Prod.fst = stack?.getD []
  line : state.line?.isSome = stack?.isSome

theorem matchBrackets_of_nests {brackets : List (Bracket × Span)}
    {before after : List Bracket} (h : lexeme.token.Nests before after)
    (hbefore : brackets.map Prod.fst = before) :
    ∃ next, matchBrackets brackets lexeme = .ok next ∧ next.map Prod.fst = after := by
  obtain ⟨t, span⟩ := lexeme
  cases h with
  | opening b stack => exact ⟨(b, span) :: brackets, rfl, by rw [List.map_cons, hbefore]⟩
  | closing b stack =>
    cases brackets with
    | nil => cases hbefore
    | cons found rest =>
      obtain ⟨rfl, hrest⟩ := List.cons.inj hbefore
      exact ⟨rest, if_pos rfl, hrest⟩
  | other hother stack =>
    refine ⟨brackets, ?_, hbefore⟩
    unfold matchBrackets
    split
    · rename_i b heq
      exact absurd heq (hother b).1
    · rename_i b heq
      exact absurd heq (hother b).2
    · rfl

/-- The state after the first token of a line. -/
theorem State.Stands.first {state : State} {old depth : Nat} {marks : List Token}
    {stack : List Bracket} (h : state.Stands old none) (table : LineTable) (lexeme : Lexeme)
    (hmarks : Reindents old depth marks) (hother : lexeme.token ≠ .newline)
    (hnests : lexeme.token.Nests [] stack)
    (hhead : lineHead cs lexeme.span.start = List.replicate depth ' ') :
    ∃ next more, Step cs table state lexeme next more [] ∧ next.Stands depth (some stack) ∧
      more.map Lexeme.token = marks ++ [lexeme.token] := by
  have hline : state.line? = none := by simpa using h.line
  have hindent : reindent? state.indents (width (lineHead cs lexeme.span.start))
      = some (levels depth, marks) := by
    rw [hhead, width_spaces, h.indents, reindent?_levels hmarks]
  obtain ⟨brackets, hmatch, hstack⟩ := matchBrackets_of_nests hnests h.brackets
  refine ⟨_, _, .first hother hline hindent hmatch, ⟨rfl, hstack, rfl⟩, ?_⟩
  have hout := map_token_marks marks (.point lexeme.span.start) lexeme []
  rwa [List.append_nil] at hout

theorem State.Stands.further {state : State} {depth : Nat} {stack after : List Bracket}
    (h : state.Stands depth (some stack)) (cs : List Char) (table : LineTable) (lexeme : Lexeme)
    (hother : lexeme.token ≠ .newline) (hnests : lexeme.token.Nests stack after) :
    ∃ next, Step cs table state lexeme next [lexeme] [] ∧ next.Stands depth (some after) := by
  obtain ⟨line, hline⟩ := Option.isSome_iff_exists.mp h.line
  obtain ⟨brackets, hmatch, hstack⟩ := matchBrackets_of_nests hnests h.brackets
  exact ⟨_, .further hother hline hmatch, h.indents, hstack, rfl⟩

theorem State.Stands.ending {state : State} {depth : Nat} (h : state.Stands depth (some []))
    (cs : List Char) (table : LineTable) (lexeme : Lexeme) (hnewline : lexeme.token = .newline) :
    ∃ next ended, Step cs table state lexeme next [lexeme] ended ∧ next.Stands depth none := by
  obtain ⟨line, hline⟩ := Option.isSome_iff_exists.mp h.line
  have hclosed : state.brackets = [] := List.map_eq_nil_iff.mp h.brackets
  exact ⟨_, _, .ending hnewline hline hclosed, h.indents, h.brackets, rfl⟩

/-- From a state on, the text behind byte `offset` is laid out as these tokens. -/
def ReadsBack (cs : List Char) (table : LineTable) (state : State) (offset : Nat)
    (text : List Char) (ts : List Token) : Prop :=
  ∃ lexemes stream, Cut offset text lexemes ∧ run cs table state lexemes = .ok stream ∧
    stream.tokens.map Lexeme.token = ts

namespace ReadsBack

variable {state next : State} {offset : Nat} {text : List Char} {ts : List Token}
  {more : List Lexeme} {ended : List LogicalLine}

/-- Where no line is in progress the text may end. -/
theorem done {depth : Nat} (h : state.Stands depth none) :
    ReadsBack cs table state offset [] (List.replicate depth .dedent) := by
  have hclosed : state.brackets = [] := List.map_eq_nil_iff.mp h.brackets
  have hline : state.line? = none := by simpa using h.line
  refine ⟨[], ⟨List.replicate depth ⟨.dedent, .point table.size⟩, []⟩, Cut.nil _, ?_, ?_⟩
  · simp only [run, finish, hclosed, hline, h.indents, length_levels]
  · rw [List.map_replicate]

theorem step {lexemes : List Lexeme} (hstep : Step cs table state lexeme next more ended)
    (hrun : run cs table next lexemes = .ok stream) :
    run cs table state (lexeme :: lexemes) = .ok (put more ended stream) := by
  rw [run_of_step hstep, hrun]
  rfl

theorem token {t : Token} (halone : t.StandsAlone) (happart : Apart text) (k : Nat)
    (hstep : Step cs table state ⟨t, ⟨offset + k, offset + k + byteLength t.text.toList⟩⟩ next
      more ended) (h : ReadsBack cs table next (offset + k + byteLength t.text.toList) text ts) :
    ReadsBack cs table state offset (List.replicate k ' ' ++ (t.text.toList ++ text))
      (more.map Lexeme.token ++ ts) := by
  obtain ⟨lexemes, stream, hcut, hrun, rfl⟩ := h
  exact ⟨_, _, hcut.token halone happart k, step hstep hrun, List.map_append⟩

theorem newline (hstep : Step cs table state ⟨.newline, ⟨offset, offset + 1⟩⟩ next more ended)
    (h : ReadsBack cs table next (offset + 1) text ts) :
    ReadsBack cs table state offset ('\n' :: text) (more.map Lexeme.token ++ ts) := by
  obtain ⟨lexemes, stream, hcut, hrun, rfl⟩ := h
  exact ⟨_, _, hcut.newline, step hstep hrun, List.map_append⟩

end ReadsBack

end Layout

theorem Token.ne_newline_of_isMark (h : t.isMark = false) : t ≠ .newline := by
  rintro rfl
  cases h

open Layout in
/-- **What is laid out is read back from its rendering**, from any place in it on. -/
theorem Laid.readsBack {cs : List Char} (table : LineTable) {depth : Nat}
    {stack? : Option (List Bracket)} {ts : List Token} (h : Laid depth stack? ts)
    {before : List Char} {state : State} (hcs : cs = before ++ render depth stack?.isNone ts)
    (hbefore : stack? = none → WholeLines before) (hstate : state.Stands depth stack?) :
    ReadsBack cs table state (byteLength before) (render depth stack?.isNone ts) ts := by
  induction h generalizing before state with
  | done depth =>
    have hempty : render depth true (List.replicate depth .dedent) = [] := by
      have hback := render_dedents 0 depth true []
      rwa [Nat.zero_add, List.append_nil] at hback
    rw [Option.isNone_none, hempty]
    exact .done hstate
  | @first old depth marks ts t stack hmarks hplain halone hnests hrest ih =>
    have hrender : render old true (marks ++ t :: ts) = List.replicate depth ' ' ++
        (t.text.toList ++ render depth false ts) := by
      rw [hmarks.render, render_plain hplain, if_pos rfl]
    rw [Option.isNone_none, hrender] at hcs ⊢
    have hhead : lineHead cs (byteLength before + depth) = List.replicate depth ' ' := by
      rw [hcs, lineHead_spaces (hbefore rfl)]
    obtain ⟨next, more, hstep, hnext, hmore⟩ := hstate.first table
      ⟨t, ⟨byteLength before + depth, byteLength before + depth + byteLength t.text.toList⟩⟩
      hmarks (Token.ne_newline_of_isMark hplain) hnests hhead
    have hrest' := @ih (before ++ List.replicate depth ' ' ++ t.text.toList) next
      (by rw [hcs]; simp) (fun hnone => by cases hnone) hnext
    rw [byteLength_append, byteLength_append, byteLength_spaces] at hrest'
    have hback := ReadsBack.token halone hrest.apart depth hstep hrest'
    rwa [hmore, List.append_assoc, List.singleton_append] at hback
  | @further depth ts t stack after hplain halone hnests hrest ih =>
    rw [Option.isNone_some, render_plain hplain, if_neg Bool.false_ne_true] at hcs ⊢
    obtain ⟨next, hstep, hnext⟩ := hstate.further cs table
      ⟨t, ⟨byteLength before + 1, byteLength before + 1 + byteLength t.text.toList⟩⟩
      (Token.ne_newline_of_isMark hplain) hnests
    have hrest' := @ih (before ++ List.replicate 1 ' ' ++ t.text.toList) next
      (by rw [hcs]; simp) (fun hnone => by cases hnone) hnext
    rw [byteLength_append, byteLength_append, byteLength_spaces] at hrest'
    exact ReadsBack.token halone hrest.apart 1 hstep hrest'
  | @ending depth ts hrest ih =>
    obtain ⟨next, ended, hstep, hnext⟩ := hstate.ending cs table
      ⟨.newline, ⟨byteLength before, byteLength before + 1⟩⟩ rfl
    have hlines : WholeLines (before ++ ['\n']) := Or.inr (by simp [EndsLine])
    have hrest' := @ih (before ++ ['\n']) next (by rw [hcs]; simp [render]) (fun _ => hlines) hnext
    rw [byteLength_append] at hrest'
    exact ReadsBack.newline hstep hrest'

/-! ### Colons -/

/-- Which of the lines that end in some tokens have a colon last; `colon` says whether one
stands before them. -/
def colonEnds (colon : Bool) : List Token → List Bool
  | [] => []
  | .newline :: ts => colon :: colonEnds false ts
  | t :: ts => colonEnds (t == .symbol .colon) ts

theorem colonEnds_cons (ht : t ≠ .newline) (colon : Bool) (ts : List Token) :
    colonEnds colon (t :: ts) = colonEnds (t == .symbol .colon) ts := by
  cases t with
  | newline => exact absurd rfl ht
  | _ => rfl

theorem colonEnds_marks (hmarks : ∀ mark ∈ marks, mark ≠ .newline)
    (ht : t ≠ .newline) (colon : Bool) (ts : List Token) :
    colonEnds colon (marks ++ t :: ts) = colonEnds (t == .symbol .colon) ts := by
  induction marks generalizing colon with
  | nil => exact colonEnds_cons ht colon ts
  | cons mark marks ih =>
    rw [List.cons_append, colonEnds_cons (hmarks mark List.mem_cons_self)]
    exact ih (fun other hother => hmarks other (List.mem_cons_of_mem _ hother)) _

theorem colonEnds_dedents (colon : Bool) (k : Nat) :
    colonEnds colon (List.replicate k .dedent) = [] := by
  induction k generalizing colon with
  | zero => rfl
  | succ k ih => exact ih _

namespace Layout

variable {cs : List Char} {table : LineTable}

/-- Whether the line in progress would open a block if it ended here. -/
def State.colon (state : State) : Bool :=
  (state.line?.map LogicalLine.opensBlock).getD false

theorem Step.colonEnds {next : State} {more : List Lexeme}
    {ended : List LogicalLine} (h : Step cs table state lexeme next more ended) (ts : List Token) :
    colonEnds state.colon (more.map Lexeme.token ++ ts)
      = ended.map LogicalLine.opensBlock ++ colonEnds next.colon ts := by
  cases h with
  | blank hnewline hline => rfl
  | inner hnewline hinside => rfl
  | ending hnewline hline hclosed =>
    rw [State.colon, hline, List.map_singleton, hnewline]
    rfl
  | further hother hline hbrackets => exact colonEnds_cons hother _ ts
  | @first indents marks brackets hother hline hindent hbrackets =>
    rw [map_token_marks]
    refine colonEnds_marks (fun mark hmark => ?_) hother _ ts
    rintro rfl
    rcases reindent?_cases hindent with ⟨-, rfl⟩ | ⟨left, -, -, rfl⟩
    · simp at hmark
    · exact absurd (List.eq_of_mem_replicate hmark) (by decide)

theorem Steps.colonEnds {start : State} {read out : List Lexeme} {lines : List LogicalLine}
    (h : Steps cs table start read state out lines) (ts : List Token) :
    colonEnds start.colon (out.map Lexeme.token ++ ts)
      = lines.map LogicalLine.opensBlock ++ colonEnds state.colon ts := by
  induction h generalizing ts with
  | nil => rfl
  | snoc hsteps hstep ih =>
    rw [List.map_append, List.append_assoc, ih, hstep.colonEnds, List.map_append, List.append_assoc]

theorem finish_colonEnds {size : Nat} {rest : TokenStream} (h : finish size state = .ok rest) :
    colonEnds state.colon (rest.tokens.map Lexeme.token)
      = rest.lines.map LogicalLine.opensBlock := by
  obtain ⟨-, ⟨hline, rfl⟩ | ⟨line, hline, rfl⟩⟩ := finish_cases h
  · rw [List.map_replicate, colonEnds_dedents]
    rfl
  · rw [List.map_cons, List.map_replicate, Scrutiny.colonEnds, colonEnds_dedents,
      State.colon, hline]
    rfl

end Layout

/-- The tokens of a stream say which of its lines open a block. -/
theorem tokenize_opensBlock {source : String} (h : tokenize source = .ok stream) :
    stream.lines.map LogicalLine.opensBlock = colonEnds false (stream.tokens.map Lexeme.token) := by
  obtain ⟨lexemes, last, out, lines, rest, -, hsteps, hfinish, rfl⟩ := tokenize_steps h
  rw [List.map_append, List.map_append, ← Layout.finish_colonEnds hfinish]
  exact (hsteps.colonEnds _).symm

/-! ### Rendering and tokenizing -/

/--
**A token stream is read back from its rendering.**  Write each logical line of a stream
behind one space for every open block, with single spaces between its tokens.  The text has
a token stream, and it has the same tokens in the same blocks, and the same lines open a
block.
-/
theorem tokenize_render {source : String} {stream : TokenStream}
    (h : tokenize source = .ok stream) : ∃ again, tokenize stream.render = .ok again ∧
      again.tokens.map Lexeme.token = stream.tokens.map Lexeme.token ∧
      again.lines.map LogicalLine.opensBlock = stream.lines.map LogicalLine.opensBlock := by
  have hchars : stream.render.toList = render 0 true (stream.tokens.map Lexeme.token) :=
    String.toList_ofList
  have hback : Layout.ReadsBack stream.render.toList (.ofText stream.render.toList) .initial
      (byteLength []) stream.render.toList (stream.tokens.map Lexeme.token) := by
    rw [hchars]
    exact (tokenize_laid h).readsBack _ rfl (fun _ => Or.inl rfl) ⟨rfl, rfl, rfl⟩
  obtain ⟨lexemes, again, hcut, hrun, htokens⟩ := hback
  have hagain : tokenize stream.render = .ok again := by
    unfold tokenize
    simp only [hcut.scan, hrun]
  refine ⟨again, hagain, htokens, ?_⟩
  rw [tokenize_opensBlock hagain, tokenize_opensBlock h, htokens]

/-- A tab, a comment in brackets, a literal over two lines, a joined line, and no end of
the last one. -/
theorem tokenize_render_block : ∃ stream,
    tokenize "if x :\n\tf(0x1F,# y\n'''a\nb''')\n\n\ty=\\\n.5e-3j\nz" = .ok stream ∧
    ∃ again, tokenize stream.render = .ok again ∧
      again.tokens.map Lexeme.token = stream.tokens.map Lexeme.token ∧
      again.lines.map LogicalLine.opensBlock = stream.lines.map LogicalLine.opensBlock := by
  generalize hsource : "if x :\n\tf(0x1F,# y\n'''a\nb''')\n\n\ty=\\\n.5e-3j\nz" = source
  have hok : (tokenize source).toOption.isSome = true := by
    rw [← hsource]
    decide +kernel
  cases hstream : tokenize source with
  | error errors => simp [hstream, Except.toOption] at hok
  | ok stream => exact ⟨stream, rfl, tokenize_render hstream⟩

end Scrutiny
