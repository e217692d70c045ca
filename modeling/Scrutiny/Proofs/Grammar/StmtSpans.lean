/-
Statements stand where their spans say, one after another.

Simple statements are like expressions: a node around all that was read.  A compound
statement has its blocks besides, and these are followed as sequences
(`SequenceIn`): its header comes first, then each block behind the one before it.  An
`elif` makes a statement of its own inside the else branch, which stops where the last
statement in it does; it is placed right because blocks are never empty.

Main statement: `parse_spans`, that every node of a module is placed right, and that
its statements are in order, in each block and throughout.
-/
import Scrutiny.Proofs.Grammar.ExprSpans
import Scrutiny.Proofs.Grammar.StmtLeaves

namespace Scrutiny

variable {α : Type} {P : Nat → Nat → α → Prop} {hi k lo mid : Nat} {s : Stmt} {t : Site}

/-- Statements that lie between two offsets, one after another. -/
structure SequenceIn (t : Site) (lo hi : Nat) (stmts : List Stmt) : Prop where
  fits : Fits t.chars lo hi (stmts.map .stmt)
  sequence : InSequence stmts

namespace SequenceIn

variable {t : Site} {lo mid hi : Nat} {stmts more : List Stmt}

theorem nil : SequenceIn t lo hi [] := ⟨fits_nil, .nil⟩

theorem liesIn (h : SequenceIn t lo hi stmts) (hs : s ∈ stmts) :
    (Node.stmt s).LiesIn t.chars lo hi :=
  h.fits _ (List.mem_map_of_mem hs)

theorem mono {lo' hi' : Nat} (h : SequenceIn t lo hi stmts) (hlo : lo' ≤ lo) (hhi : hi ≤ hi') :
    SequenceIn t lo' hi' stmts :=
  ⟨h.fits.mono hlo hhi, h.sequence⟩

theorem append (h₁ : SequenceIn t lo mid stmts) (h₂ : SequenceIn t mid hi more) (hlo : lo ≤ mid)
    (hhi : mid ≤ hi) : SequenceIn t lo hi (stmts ++ more) := by
  constructor
  · rw [List.map_append, fits_append]
    exact ⟨h₁.fits.mono (Nat.le_refl _) hhi, h₂.fits.mono hlo (Nat.le_refl _)⟩
  · refine List.pairwise_append.mpr ⟨h₁.sequence, h₂.sequence, fun a ha b hb => ?_⟩
    have hstop := (h₁.liesIn ha).stop
    have hstart := (h₂.liesIn hb).start
    exact Nat.le_trans hstop hstart

/-- The last of some statements is the one that reaches furthest. -/
theorem stop_le_last (h : SequenceIn t lo hi stmts) {last : Stmt}
    (hlast : stmts.getLast? = some last) (hs : s ∈ stmts) : s.span.stop ≤ last.span.stop := by
  obtain ⟨front, rfl⟩ := List.getLast?_eq_some_iff.mp hlast
  rcases List.mem_append.mp hs with hs | hs
  · have horder := (List.pairwise_append.mp h.sequence).2.2 s hs last (by simp)
    have hnonempty := (h.liesIn (s := last) (by simp)).placed.nonempty
    exact Nat.le_trans horder (Nat.le_of_lt hnonempty)
  · rw [List.mem_singleton.mp hs]

/-- Blocks in a row make one sequence. -/
theorem of_row {g : α → List Stmt} {as : List α}
    (h : Row P lo hi as) (hP : ∀ lo hi a, P lo hi a → SequenceIn t lo hi (g a)) :
    SequenceIn t lo hi (as.map g).flatten := by
  induction h with
  | nil => exact .nil
  | cons hle ha has ih => exact (hP _ _ _ ha).append ih hle has.le

end SequenceIn

/-- A statement fits if its header does and its blocks follow. -/
theorem Stmt.liesIn {here : Nat} (mid : Nat) (header : List Node)
    (hspan : s.span = ⟨here, hi⟩) (hsize : hi ≤ byteLength t.chars) (hhere : here < mid)
    (hmid : mid ≤ hi) (hheader : Fits t.chars here hi header)
    (hblocks : SequenceIn t mid hi s.blocks.flatten) (hchildren : Fits t.chars here hi header →
      Fits t.chars here hi (s.blocks.flatten.map .stmt) → Fits t.chars here hi s.children) :
    (Node.stmt s).LiesIn t.chars here hi := by
  have hnew : (Node.stmt s).span = ⟨here, hi⟩ := hspan
  refine .of_children (by rw [hnew]) (by rw [hnew]) ?_ ?_ ?_ ?_ hblocks.sequence
    fun inner hinner => ?_
  · rw [hnew]
    exact Nat.lt_of_lt_of_le hhere hmid
  · rw [hnew]
    exact hsize
  · rw [hnew]
    exact hchildren hheader (hblocks.fits.mono (Nat.le_of_lt hhere) (Nat.le_refl _))
  · simp [Node.text?]
  · rw [hnew]
    exact Nat.lt_of_lt_of_le hhere (hblocks.liesIn hinner).start

namespace Parser

/-- A parser that reads a statement once it is given its span. -/
def LaysStmt (t : Site) (p : Parser (Span → Stmt)) : Prop :=
  Gathers t 0 [] p (t.Built fun s => [.stmt s])

/-- A parser for a block, which is never empty. -/
def LaysBlock (t : Site) (p : Parser (List Stmt)) : Prop :=
  ∀ lo, Places t lo p fun hi stmts => SequenceIn t lo hi stmts ∧ stmts ≠ []

/-- A simple statement around what was gathered. -/
theorem Gathers.simple {ns : List Node} {build : Span → Stmt} (hk : 1 ≤ k)
    (hspan : ∀ span, (build span).span = span) (hblocks : ∀ span, (build span).blocks = [])
    (hchildren : ∀ span base hi, Fits t.chars base hi ns →
      Fits t.chars base hi (build span).children) :
    Gathers t k ns (Pure.pure build) (t.Built fun s => [.stmt s]) :=
  builtAs hk (fun _ => rfl) hspan (fun _ => rfl)
    (fun span => by simp [Node.inner, hblocks]) hchildren

/-- A node built around what was gathered, whose result is said to lie somewhere. -/
theorem Places.node_of_gathers {p : Parser (Span → α)} (hp : Gathers t 0 [] p fun base hi build =>
      base < hi ∧ (hi ≤ byteLength t.chars → P base hi (build ⟨base, hi⟩)))
    (hP : ∀ lo mid hi a, lo ≤ mid → P mid hi a → P lo hi a) : Places t lo (Parser.node p) (P lo) :=
  .node fun here hhere => (hp (Nat.le_refl here) fits_nil).imp fun hi _ _ hbuild =>
    ⟨hbuild.1, fun hsize => hP lo here hi _ hhere (hbuild.2 hsize)⟩

theorem Places.many1 {p : Parser α} (hp : ∀ lo, Places t lo p (P lo)) :
    Places t lo (many1 p) fun hi as => Row P lo hi as ∧ as ≠ [] :=
  .bind (hp lo) fun _ _ hmid ha => .bind (.many hp) fun _ _ _ has =>
    .pure ⟨.cons hmid ha has, by simp⟩

/-- One item, and more behind separators, are in a row. -/
theorem Places.sepBy1 {w : Nat} {p : Parser α} {sep : Parser Unit} (hp : ∀ lo, Places t lo p (P lo))
    (hsep : Lays t w sep fun _ => []) (hP : ∀ lo mid hi a, lo ≤ mid → P mid hi a → P lo hi a) :
    Places t lo (sepBy1 p sep) fun hi as => Row P lo hi as ∧ as ≠ [] := by
  have hnext (lo : Nat) : Places t lo (do sep; p) (P lo) :=
    .bind (hsep.places lo) fun _ mid hmid _ => (hp mid).imp fun hi a _ ha => hP lo mid hi a hmid ha
  refine .bind (hp lo) fun a mid hmid ha => .bind (.many hnext) fun as hi _ has => .pure ?_
  exact ⟨.cons hmid ha has, by simp⟩

end Parser

namespace Grammar

open Scrutiny.Parser

variable {t : Site} {r : ExprRules}

/-! ### Simple statements -/

variable (hr : r.Laid t)

include hr

theorem rightSide_lays : LaysExpr t (rightSide r) :=
  Gathers.orElse (yieldExpr_lays hr) (exprList_lays (starItem_lays hr))

omit hr

theorem dottedName_lays : Lays t 1 dottedName fun _ => [] :=
  Gathers.bind (.sepBy1 .name .symbol) fun _ => .wide (by omega) (by simp)

theorem asName_lays : Lays t 0 asName fun _ => [] :=
  .optSkip (Gathers.skip .keyword fun _ => .last .name (Nat.le_refl _))

theorem importStmt_lays : LaysStmt t importStmt := by
  have halias : Lays t 1
      (do
        let name ← dottedName
        let asName ← asName
        return (⟨name, asName⟩ : Alias)) fun _ => [] :=
    Gathers.skip dottedName_lays fun _ => .skip asName_lays fun _ => .wide (by omega) (by simp)
  exact .skip .keyword fun _ => .bind (.sepBy1 halias .symbol) fun _ =>
    .simple (by omega) (fun _ => rfl) (fun _ => rfl) (by simp [Stmt.children])

theorem importedNames_lays : Lays t 1 importedNames fun _ => [] := by
  have halias : Lays t 1 plainAlias fun _ => [] :=
    Gathers.skip .name fun _ => .skip asName_lays fun _ => .wide (by omega) (by simp)
  refine .orElse (.skip .symbol fun _ => .wide (by omega) (by simp)) (.orElse ?_ ?_)
  · exact (Lays.bracketed (.sepEndBy1 halias .symbol)).imp (Nat.le_refl _) (by simp)
  · exact (Lays.sepBy1 halias .symbol).imp (Nat.le_refl _) (by simp)

theorem importFromStmt_lays : LaysStmt t importFromStmt := by
  have hdots : Lays t 0 relativeLevel fun _ => [] := by
    refine .skip ((Lays.many (.satisfy fun token htoken => ?_)).imp (Nat.le_refl _) (by simp))
      fun _ => .wide (Nat.le_refl _) (by simp)
    cases token with
    | symbol s => simp [Token.isMark] at htoken
    | _ => rfl
  refine .skip .keyword fun _ => .skip hdots fun level =>
    .skip (.optSkip dottedName_lays) fun module => ?_
  have hnames : Gathers t (0 + 1 + 0 + 0) []
      (do
        keyword .import_
        let names ← importedNames
        return (.importFrom · module level names)) (t.Built fun s => [.stmt s]) :=
    .skip .keyword fun _ => .skip importedNames_lays fun _ =>
      .simple (by omega) (fun _ => rfl) (fun _ => rfl) (by simp [Stmt.children])
  split
  · exact fun base lo hbase hns => .bind .fail fun _ mid hmid _ => hnames (by omega) fits_nil
  · exact hnames

include hr

theorem returnStmt_lays : LaysStmt t (returnStmt r) :=
  .skip .keyword fun _ => .bind (.opt (exprList_lays (starItem_lays hr))) fun _ =>
    .simple (by omega) (fun _ => rfl) (fun _ => rfl) (by simp [Stmt.children])

theorem raiseStmt_lays : LaysStmt t (raiseStmt r) := by
  have hraised : Lays t 1
      (do
        let exc ← r.expr
        let cause ← opt (do keyword .from_; r.expr)
        return (exc, cause)) fun found => .expr found.1 :: found.2.toList.map .expr :=
    Gathers.bind hr.expr fun _ =>
      .bind (.opt (Gathers.skip .keyword fun _ => .last hr.expr (Nat.le_refl _))) fun _ =>
        .wide (by omega) (by simp)
  refine .skip .keyword fun _ => .bind (.opt hraised) fun raised => ?_
  cases raised with
  | none => exact .simple (by omega) (fun _ => rfl) (fun _ => rfl) (by simp [Stmt.children])
  | some raised => exact .simple (by omega) (fun _ => rfl) (fun _ => rfl) (by simp [Stmt.children])

theorem deleteStmt_lays : LaysStmt t (deleteStmt r) :=
  .skip .keyword fun _ => .bind (.sepEndBy1 (starItem_lays hr) .symbol) fun _ =>
    .simple (by omega) (fun _ => rfl) (fun _ => rfl) (by simp [Stmt.children])

theorem assertStmt_lays : LaysStmt t (assertStmt r) :=
  .skip .keyword fun _ => .bind hr.expr fun _ =>
    .bind (.opt (Gathers.skip .symbol fun _ => .last hr.expr (Nat.le_refl _))) fun _ =>
      .simple (by omega) (fun _ => rfl) (fun _ => rfl) (by simp [Stmt.children])

omit hr in
theorem namesStmt_lays (kw : Keyword) {build : List String → Span → Stmt}
    (hspan : ∀ names span, (build names span).span = span)
    (hblocks : ∀ names span, (build names span).blocks = [])
    (hchildren : ∀ names span, (build names span).children = []) :
    LaysStmt t (do
      keyword kw
      let names ← sepBy1 name comma
      return build names) :=
  .skip .keyword fun _ => .bind (.sepBy1 .name .symbol) fun names =>
    .simple (by omega) (hspan names) (hblocks names) (by simp [hchildren])

theorem typeParam_lays : Lays t 1 (typeParam r) fun p => [.typeParam p] := by
  have hoptional (s : Symbol) : Lays t 0 (opt (do symbol s; r.expr)) fun found =>
      found.toList.map .expr :=
    (Lays.opt (Gathers.skip .symbol fun _ => .last hr.expr (Nat.le_refl _))).imp (Nat.le_refl _)
      (by simp)
  refine .node
    (.skip (.optSkip (Gathers.orElse Lays.symbol Lays.symbol)) fun _ => .skip .name fun _ => ?_)
  refine .bind (hoptional .colon) fun bound => .bind (hoptional .assign) fun _ => ?_
  exact .builtAs (by omega) (fun _ => rfl) (fun _ => rfl) (fun _ => rfl) (fun _ => rfl)
    (by simp +contextual [Node.children])

theorem typeParams_lays : Lays t 0 (typeParams r) fun ps => ps.map .typeParam := by
  refine .bind (.opt (.bracketed (.sepEndBy1 (typeParam_lays hr) .symbol))) fun ps =>
    .wide (Nat.le_refl _) ?_
  cases ps with
  | none => simp
  | some ps => simp

theorem typeAlias_lays : LaysStmt t (typeAlias r) := by
  refine .skip .word fun _ => .bind nameAtom_lays fun name => ?_
  refine .bind (typeParams_lays hr) fun params => .skip .symbol fun _ => .bind hr.expr fun _ => ?_
  exact .simple (by omega) (fun _ => rfl) (fun _ => rfl) (by simp +contextual [Stmt.children])

omit hr in
/-- The expressions in what follows the first expressions of a statement. -/
def AssignTail.nodes : AssignTail → List Node
  | .annotated hint value => .expr hint :: value.toList.map .expr
  | .augmented _ value => [.expr value]
  | .chained first more => .expr first :: more.map .expr
  | .nothing => []

theorem assignTail_lays : Lays t 0 (assignTail r) AssignTail.nodes := by
  have hside : LaysExpr t (do symbol .assign; rightSide r) :=
    Gathers.skip .symbol fun _ => .last (rightSide_lays hr) (by omega)
  refine .orElse ?_ (.orElse ?_ (.orElse ?_ (.wide (Nat.le_refl _) (by simp [AssignTail.nodes]))))
  · exact .skip .symbol fun _ => .bind hr.expr fun _ => .bind (.opt hside) fun _ =>
      .wide (by omega) (by simp [AssignTail.nodes])
  · refine .skip (.satisfy fun token htoken => ?_) fun _ => .bind (rightSide_lays hr) fun _ =>
      .wide (by omega) (by simp [AssignTail.nodes])
    cases token with
    | symbol s => simp [Token.isMark] at htoken
    | _ => rfl
  · exact .bind hside fun _ => .bind (.many hside) fun _ =>
      .wide (by omega) (by simp [AssignTail.nodes])

omit hr in
theorem assignment_gathers (hk : 1 ≤ k) (target first : Expr) (more : List Expr) :
    Gathers t k (.expr target :: .expr first :: more.map .expr)
      (pure (assignment target first more)) (t.Built fun s => [.stmt s]) := by
  unfold assignment
  split
  · exact .simple hk (fun _ => rfl) (fun _ => rfl) (by simp +contextual [Stmt.children])
  · rename_i value hvalue
    obtain ⟨front, rfl⟩ := List.getLast?_eq_some_iff.mp hvalue
    exact .simple hk (fun _ => rfl) (fun _ => rfl) (by simp +contextual [Stmt.children])

theorem exprStmt_lays : LaysStmt t (exprStmt r) := by
  refine .bind (exprList_lays (starItem_lays hr)) fun left => ?_
  refine .bind (assignTail_lays hr) fun tail => ?_
  cases tail with
  | chained first more => exact assignment_gathers (by omega) left first more
  | _ =>
    exact .simple (by omega) (fun _ => rfl) (fun _ => rfl)
      (by simp +contextual [Stmt.children, AssignTail.nodes])

theorem simpleStmt_lays : Lays t 1 (simpleStmt r) fun s => [.stmt s] := by
  have hword (kw : Keyword) (stmt : Span → Stmt) (hspan : ∀ span, (stmt span).span = span)
      (hblocks : ∀ span, (stmt span).blocks = []) (hchildren : ∀ span, (stmt span).children = []) :
      LaysStmt t (do keyword kw; return stmt) :=
    .skip .keyword fun _ => .simple (by omega) hspan hblocks (by simp [hchildren])
  refine .node ?_
  refine .orElse (hword .pass_ _ (fun _ => rfl) (fun _ => rfl) (fun _ => rfl)) ?_
  refine .orElse (hword .break_ _ (fun _ => rfl) (fun _ => rfl) (fun _ => rfl)) ?_
  refine .orElse (hword .continue_ _ (fun _ => rfl) (fun _ => rfl) (fun _ => rfl)) ?_
  refine .orElse (returnStmt_lays hr) (.orElse (raiseStmt_lays hr) ?_)
  refine .orElse (deleteStmt_lays hr) (.orElse (assertStmt_lays hr) ?_)
  refine .orElse (namesStmt_lays .global_ (fun _ _ => rfl) (fun _ _ => rfl) (fun _ _ => rfl)) ?_
  refine .orElse (namesStmt_lays .nonlocal_ (fun _ _ => rfl) (fun _ _ => rfl) (fun _ _ => rfl)) ?_
  refine .orElse importStmt_lays (.orElse importFromStmt_lays ?_)
  refine .orElse ?_ (.orElse (typeAlias_lays hr) (exprStmt_lays hr))
  exact .bind (yieldExpr_lays hr) fun _ =>
    .simple (by omega) (fun _ => rfl) (fun _ => rfl) (by simp [Stmt.children])

theorem simpleLine_lays : LaysBlock t (simpleLine r) := by
  intro lo
  have hstmts : Places t lo (sepEndBy1 (simpleStmt r) (symbol .semicolon)) fun hi stmts =>
      SequenceIn t lo hi stmts ∧ stmts ≠ [] := by
    refine .bind (.sepBy1 (simpleStmt_lays hr).places .symbol ?_) fun stmts mid hmid hstmts => ?_
    · exact fun lo mid hi s hle hs => ⟨by have := hs.1; omega, hs.2.mono hle (Nat.le_refl _)⟩
    · have hsequence : SequenceIn t lo mid (stmts.map fun s => [s]).flatten :=
        .of_row hstmts.1 fun lo hi s hs => ⟨by simpa using hs.2, List.pairwise_singleton _ _⟩
      rw [← List.flatMap_def, List.flatMap_singleton'] at hsequence
      exact .bind (.opt (Lays.symbol.places mid)) fun _ hi hhi _ =>
        .pure ⟨hsequence.mono (Nat.le_refl _) hhi, hstmts.2⟩
  refine .bind hstmts fun stmts mid _ hstmts => ?_
  exact .bind (Lays.token.places mid) fun _ hi hhi _ =>
    .pure ⟨hstmts.1.mono (Nat.le_refl _) hhi, hstmts.2⟩

/-! ### Blocks -/

omit hr in
/-- Lines in a row are a sequence of statements. -/
theorem lines_sequence {lines : List (List Stmt)}
    (h : Row (fun lo hi stmts => SequenceIn t lo hi stmts ∧ stmts ≠ []) lo hi lines) :
    SequenceIn t lo hi lines.flatten := by
  simpa using SequenceIn.of_row h fun _ _ _ hline => hline.1

theorem block_lays {line : Parser (List Stmt)} (hline : LaysBlock t line) :
    LaysBlock t (block r line) := by
  intro lo
  refine .orElse ?_ (simpleLine_lays hr lo)
  refine .bind (Lays.token.places lo) fun _ m₁ h₁ _ =>
    .bind (Lays.token.places m₁) fun _ m₂ h₂ _ => ?_
  refine .bind (.many1 hline) fun lines m₃ _ ⟨hrow, hne⟩ => ?_
  refine .bind (Lays.token.places m₃) fun _ hi hhi _ => .pure ⟨?_, ?_⟩
  · exact (lines_sequence hrow).mono (by omega) hhi
  · cases hrow with
    | nil => exact absurd rfl hne
    | cons _ hfirst _ => simp [hfirst.2]

omit hr

/-- An `elif` clause between two offsets. -/
def ElifIn (t : Site) (lo hi : Nat) (clause : Span × Expr × List Stmt) : Prop :=
  ∃ m₁ m₂, m₁ ≤ m₂ ∧ m₂ ≤ hi ∧ CoversIn t lo m₁ clause.1 ∧
    (Node.expr clause.2.1).LiesIn t.chars m₁ m₂ ∧ SequenceIn t m₂ hi clause.2.2 ∧ clause.2.2 ≠ []

theorem nestElif_sequence {clause : Span × Expr × List Stmt} {orElse : List Stmt}
    (hle : mid ≤ hi) (hclause : ElifIn t lo mid clause) (horElse : SequenceIn t mid hi orElse) :
    SequenceIn t lo hi (nestElif clause orElse) := by
  obtain ⟨mark, test, body⟩ := clause
  obtain ⟨m₁, m₂, h₁, h₂, hmark, htest, hbody, hne⟩ := hclause
  have hblocks : SequenceIn t m₂ hi (body ++ orElse) := hbody.append horElse h₂ hle
  -- The block is not empty, so there is a last statement for the new one to stop at.
  obtain ⟨last, hlast⟩ : ∃ last, (body ++ orElse).getLast? = some last :=
    ⟨_, List.getLast?_eq_some_getLast (by simp [hne])⟩
  have hstop : (((orElse.getLast? <|> body.getLast?).map (·.span.stop)).getD mark.stop)
      = last.span.stop := by
    rw [List.getLast?_append] at hlast
    rw [show (orElse.getLast? <|> body.getLast?) = orElse.getLast?.or body.getLast? by
      cases orElse.getLast? <;> rfl, hlast]
    rfl
  have hmem : last ∈ body ++ orElse := List.mem_of_getLast? hlast
  have hplaced := (hblocks.liesIn hmem).placed
  have hstart := (hblocks.liesIn hmem).start
  have hhi := (hblocks.liesIn hmem).stop
  have hnonempty := hplaced.nonempty
  have hmark₁ := hmark.start
  have hmark₂ := hmark.nonempty
  have hmark₃ := hmark.stop
  simp only [Node.span] at hstart hhi hnonempty hmark₁ hmark₂ hmark₃
  have hliesIn : (Node.stmt (.if_ ⟨mark.start, last.span.stop⟩ test body orElse)).LiesIn t.chars
      mark.start last.span.stop := by
    refine Stmt.liesIn m₂ [.expr test] rfl hplaced.inside ?_ ?_ ?_ ?_ ?_
    · omega
    · omega
    · exact fits_cons.mpr ⟨htest.mono (by omega) (by omega), fits_nil⟩
    · rw [show (Stmt.if_ ⟨mark.start, last.span.stop⟩ test body orElse).blocks.flatten
        = body ++ orElse by simp [Stmt.blocks]]
      refine ⟨fits_map.mpr fun s hs => ?_, hblocks.sequence⟩
      exact ⟨(hblocks.liesIn hs).start, hblocks.stop_le_last hlast hs, (hblocks.liesIn hs).below⟩
    · simp +contextual [Stmt.children, Stmt.blocks]
  unfold nestElif
  simp only [hstop]
  exact ⟨fits_cons.mpr ⟨hliesIn.mono hmark₁ hhi, fits_nil⟩, List.pairwise_singleton _ _⟩

theorem elifs_sequence {elifs : List (Span × Expr × List Stmt)}
    {orElse : List Stmt} (hle : mid ≤ hi) (helifs : Row (ElifIn t) lo mid elifs)
    (horElse : SequenceIn t mid hi orElse) : SequenceIn t lo hi (elifs.foldr nestElif orElse) := by
  induction helifs with
  | nil => exact horElse
  | cons _ hclause hrest ih =>
    exact nestElif_sequence (Nat.le_trans hrest.le hle) hclause (ih hle horElse)

/-! ### Compound statements -/

section

variable {suite : Parser (List Stmt)}

/-- Once its blocks have been read, a statement is built around its header and them. -/
theorem compound_built {base : Nat} {header : List Node} {build : Span → Stmt} (mid : Nat)
    (hbase : base < mid) (hmid : mid ≤ hi) (hheader : Fits t.chars base hi header)
    (hspan : ∀ span, (build span).span = span)
    (hblocks : ∀ span, SequenceIn t mid hi (build span).blocks.flatten)
    (hchildren : ∀ span, Fits t.chars base hi header →
      Fits t.chars base hi ((build span).blocks.flatten.map .stmt) →
        Fits t.chars base hi (build span).children) :
    t.Built (fun s => [.stmt s]) base hi build := by
  refine ⟨by omega, fun hsize => fits_cons.mpr ⟨?_, fits_nil⟩⟩
  exact Stmt.liesIn mid header (hspan _) hsize hbase hmid hheader (hblocks _) (hchildren _)

/-- A block that may be left out. -/
theorem optBlock_places {p : Parser (List Stmt)} (hp : LaysBlock t p) (lo : Nat) :
    Places t lo (opt p) fun hi found => SequenceIn t lo hi (found.getD []) := by
  refine (Places.opt (hp lo)).imp fun hi found _ hfound => ?_
  cases found with
  | none => exact .nil
  | some stmts => exact hfound.1

/-- A clause that is a node of its own, with a block in it. -/
structure ClauseIn (t : Site) (n : Node) (body : List Stmt) (lo hi : Nat) : Prop where
  liesIn : n.LiesIn t.chars lo hi
  body : SequenceIn t lo hi body

theorem ClauseIn.mono {n : Node} {body : List Stmt} (hle : lo ≤ mid)
    (h : ClauseIn t n body mid hi) : ClauseIn t n body lo hi :=
  ⟨h.liesIn.mono hle (Nat.le_refl _), h.body.mono hle (Nat.le_refl _)⟩

/-- Once its block has been read, such a clause is built around its header and the block. -/
theorem ClauseIn.built {base : Nat} {n : Node} {header : List Node} {body : List Stmt}
    (hbase : base < mid) (hmid : mid ≤ hi) (hsize : hi ≤ byteLength t.chars)
    (hheader : Fits t.chars base mid header) (hbody : SequenceIn t mid hi body)
    (hspan : n.span = ⟨base, hi⟩) (htext : n.text? = none) (hinner : n.inner = [])
    (hchildren : Fits t.chars base hi header → Fits t.chars base hi (body.map .stmt) →
      Fits t.chars base hi n.children) : ClauseIn t n body base hi := by
  refine ⟨.of_children (by rw [hspan]) (by rw [hspan]) ?_ ?_ ?_ (by simp [htext])
    (by rw [hinner]; exact .nil) (by simp [hinner]), hbody.mono (by omega) (Nat.le_refl _)⟩
  · rw [hspan]
    show base < hi
    omega
  · rwa [hspan]
  · rw [hspan]
    exact hchildren (hheader.mono (Nat.le_refl _) hmid)
      (hbody.fits.mono (Nat.le_of_lt hbase) (Nat.le_refl _))

/-- Clauses in a row: their nodes, and their blocks one after another. -/
theorem clauses_row {node : α → Node} {body : α → List Stmt} {as : List α}
    (h : Row (fun lo hi a => ClauseIn t (node a) (body a) lo hi) lo hi as) :
    Fits t.chars lo hi (as.map node) ∧ SequenceIn t lo hi (as.map body).flatten := by
  refine ⟨?_, .of_row h fun _ _ _ ha => ha.body⟩
  induction h with
  | nil => exact fits_nil
  | cons hle ha has ih =>
    exact fits_cons.mpr ⟨ha.liesIn.mono (Nat.le_refl _) has.le, ih.mono hle (Nat.le_refl _)⟩

variable (hr : r.Laid t) (hsuite : LaysBlock t suite)

include hsuite

theorem keywordSuite_lays (kw : Keyword) : LaysBlock t (do keyword kw; suite) := fun lo =>
  .bind (Lays.keyword.places lo) fun _ mid hmid _ => (hsuite mid).imp fun _ _ _ hstmts =>
    ⟨hstmts.1.mono hmid (Nat.le_refl _), hstmts.2⟩

theorem elseSuite_places (lo : Nat) :
    Places t lo (elseSuite suite) fun hi stmts => SequenceIn t lo hi stmts :=
  .bind (optBlock_places (keywordSuite_lays hsuite .else_) lo) fun _ _ _ hstmts => .pure hstmts

include hr

theorem ifStmt_lays : LaysStmt t (ifStmt r suite) := by
  have helif (lo : Nat) : Places t lo
      (do
        let mark ← spanOf (keyword .elif_)
        let test ← r.expr
        let body ← suite
        return (mark, test, body)) fun hi clause => ElifIn t lo hi clause :=
    .bind (spanOf_covers rfl) fun _ m₁ _ hmark => .bind (hr.expr.liesIn m₁) fun _ m₂ h₂ htest =>
      .bind (hsuite m₂) fun _ _ h₃ hbody => .pure ⟨m₁, m₂, h₂, h₃, hmark, htest, hbody.1, hbody.2⟩
  refine .skip .keyword fun _ => .bind hr.expr fun test base lo hbase hheader => ?_
  refine .bind (hsuite lo) fun body m₁ h₁ hbody => .bind (.many helif) fun elifs m₂ h₂ helifs => ?_
  refine .bind (elseSuite_places hsuite m₂) fun orElse hi h₃ horElse => .pure ?_
  have hrest := elifs_sequence h₃ helifs horElse
  refine compound_built lo (by omega) (by omega) (hheader.mono (Nat.le_refl _) (by omega))
    (fun _ => rfl) (fun _ => ?_) (fun _ => by simp +contextual [Stmt.children, Stmt.blocks])
  simpa [Stmt.blocks] using hbody.1.append hrest h₁ (by omega)

theorem whileStmt_lays : LaysStmt t (whileStmt r suite) := by
  refine .skip .keyword fun _ => .bind hr.expr fun test base lo hbase hheader => ?_
  refine .bind (hsuite lo) fun body mid h₁ hbody => ?_
  refine .bind (elseSuite_places hsuite mid) fun orElse hi h₂ horElse => .pure ?_
  refine compound_built lo (by omega) (by omega) (hheader.mono (Nat.le_refl _) (by omega))
    (fun _ => rfl) (fun _ => ?_) (fun _ => by simp +contextual [Stmt.children, Stmt.blocks])
  simpa [Stmt.blocks] using hbody.1.append horElse h₁ h₂

theorem forStmt_lays : LaysStmt t (forStmt r suite) := by
  refine .skip (.optSkip .keyword) fun _ => .skip .keyword fun _ => ?_
  refine .bind (targetList_lays hr) fun target => .skip .keyword fun _ => ?_
  refine .bind (exprList_lays (starItem_lays hr)) fun iter base lo hbase hheader => ?_
  refine .bind (hsuite lo) fun body mid h₁ hbody => ?_
  refine .bind (elseSuite_places hsuite mid) fun orElse hi h₂ horElse => .pure ?_
  refine compound_built lo (by omega) (by omega) (hheader.mono (Nat.le_refl _) (by omega))
    (fun _ => rfl) (fun _ => ?_) (fun _ => by simp +contextual [Stmt.children, Stmt.blocks])
  simpa [Stmt.blocks] using hbody.1.append horElse h₁ h₂

theorem handler_places (lo : Nat) :
    Places t lo (handler r suite) fun hi h => ClauseIn t (.handler h) h.body lo hi := by
  have htype : Lays t 1
      (do
        let type ← r.expr
        let name ← asName
        return (type, name)) fun found => [.expr found.1] :=
    Gathers.bind hr.expr fun _ => .skip asName_lays fun _ => .wide (by omega) (by simp)
  refine .node_of_gathers (P := fun lo hi h => ClauseIn t (.handler h) h.body lo hi)
    (.skip .keyword fun _ => .skip (.optSkip .symbol) fun _ => ?_) fun _ _ _ _ => ClauseIn.mono
  refine .bind (.opt htype) fun header base mid hbase hheader => ?_
  refine .bind (hsuite mid) fun body hi hhi hbody => .pure ⟨by omega, fun hsize => ?_⟩
  refine .built (by omega) hhi hsize hheader hbody.1 rfl rfl rfl ?_
  cases header with
  | none => simp [Node.children]
  | some header => simp +contextual [Node.children]

theorem tryStmt_lays : LaysStmt t (tryStmt r suite) := by
  have hfinally : LaysBlock t (finallySuite suite) := keywordSuite_lays hsuite .finally_
  refine .skip .keyword fun _ base lo hbase _ => .bind (hsuite lo) fun body m₁ h₁ hbody =>
    .orElse ?_ ?_
  · refine .bind (.many1 (handler_places hr hsuite)) fun handlers m₂ h₂ hhandlers => ?_
    refine .bind (elseSuite_places hsuite m₂) fun orElse m₃ h₃ horElse => ?_
    refine .bind (optBlock_places hfinally m₃) fun finalBody hi h₄ hfinal => .pure ?_
    obtain ⟨hnodes, hblocks⟩ := clauses_row hhandlers.1
    refine compound_built lo (by omega) (by omega) (hnodes.mono (by omega) (by omega))
      (fun _ => rfl) (fun _ => ?_) (fun _ => by simp +contextual [Stmt.children, Stmt.blocks])
    have hrest := hblocks.append (horElse.append hfinal h₃ h₄) h₂ (by omega)
    simpa [Stmt.blocks] using hbody.1.append hrest h₁ (by omega)
  · refine .bind (hfinally m₁) fun finalBody hi h₂ hfinal => .pure ?_
    refine compound_built lo (by omega) (by omega) (show Fits t.chars base hi [] from fits_nil)
      (fun _ => rfl) (fun _ => ?_) (fun _ => by simp +contextual [Stmt.children, Stmt.blocks])
    simpa [Stmt.blocks] using hbody.1.append hfinal.1 h₁ h₂

theorem withStmt_lays : LaysStmt t (withStmt r suite) := by
  have hitem : Lays t 1 (withItem r) fun i => i.exprs.map .expr :=
    Gathers.bind hr.expr fun _ =>
      .bind (.opt (Gathers.skip .keyword fun _ => .last hr.operand (Nat.le_refl _))) fun _ =>
        .wide (by omega) (by simp [WithItem.exprs])
  have hitems : Lays t 1 (withItems r) fun items => (items.flatMap WithItem.exprs).map .expr := by
    refine .orElse ?_ ((Lays.sepBy1 hitem .symbol).imp (Nat.le_refl _) (by simp [List.map_flatMap]))
    exact .bind (.bracketed (.sepEndBy1 hitem .symbol)) fun _ => .skip .ahead fun _ =>
      .wide (by omega) (by simp [List.map_flatMap])
  refine .skip (.optSkip .keyword) fun _ => .skip .keyword fun _ => ?_
  refine .bind hitems fun items base lo hbase hheader => ?_
  refine .bind (hsuite lo) fun body hi h₁ hbody => .pure ?_
  refine compound_built lo (by omega) h₁ (hheader.mono (Nat.le_refl _) h₁)
    (fun _ => rfl) (fun _ => ?_) (fun _ hitems hstmts => ?_)
  · simpa [Stmt.blocks] using hbody.1
  · simpa [Stmt.children, Stmt.blocks] using And.intro hitems hstmts

theorem caseClause_places (lo : Nat) :
    Places t lo (caseClause r suite) fun hi c => ClauseIn t (.case c) c.body lo hi := by
  refine .node_of_gathers (P := fun lo hi c => ClauseIn t (.case c) c.body lo hi)
    (.skip .word fun _ => .bind (targetList_lays hr) fun pattern => ?_) fun _ _ _ _ => ClauseIn.mono
  refine .bind (.opt (Gathers.skip .keyword fun _ => .last nameAtom_lays (Nat.le_refl _)))
    fun binding => ?_
  refine .bind (.opt (Gathers.skip .keyword fun _ => .last hr.expr (Nat.le_refl _)))
    fun guard base mid hbase hheader => ?_
  refine .bind (hsuite mid) fun body hi hhi hbody => .pure ⟨by omega, fun hsize => ?_⟩
  exact .built (by omega) hhi hsize hheader hbody.1 rfl rfl rfl
    (by simp +contextual [Node.children])

theorem matchStmt_lays : LaysStmt t (matchStmt r suite) := by
  refine .skip .word fun _ => .bind (exprList_lays (starItem_lays hr)) fun subject => ?_
  refine .skip .symbol fun _ => .skip .token fun _ => .skip .token fun _ base lo hbase hheader => ?_
  refine .bind (.many1 (caseClause_places hr hsuite)) fun cases mid h₁ hcases => ?_
  refine .bind (Lays.token.places mid) fun _ hi h₂ _ => .pure ?_
  obtain ⟨hnodes, hblocks⟩ := clauses_row hcases.1
  refine compound_built lo (by omega) (by omega)
    (fits_append.mpr ⟨hheader.mono (Nat.le_refl _) (by omega), hnodes.mono (by omega) h₂⟩)
    (fun _ => rfl) (fun _ => ?_) (fun _ => by simp +contextual [Stmt.children, Stmt.blocks])
  exact hblocks.mono (Nat.le_refl _) h₂

/-- The decorators of a function are read before it. -/
theorem functionDef_lays (decorators : List Expr) :
    Gathers t k (decorators.map .expr) (functionDef r suite decorators)
      (t.Built fun s => [.stmt s]) := by
  refine .skip (.optSkip .keyword) fun _ => .skip .keyword fun _ => .skip .name fun name => ?_
  refine .bind (typeParams_lays hr) fun typeParams => ?_
  refine .bind (.bracketed (params_lays hr true)) fun params => ?_
  refine .bind (.opt (Gathers.skip .symbol fun _ => .last hr.expr (Nat.le_refl _)))
    fun returns base lo hbase hheader => ?_
  refine .bind (hsuite lo) fun body hi h₁ hbody => .pure ?_
  refine compound_built lo (by omega) h₁ (hheader.mono (Nat.le_refl _) h₁)
    (fun _ => rfl) (fun _ => ?_) (fun _ => by simp +contextual [Stmt.children, Stmt.blocks])
  simpa [Stmt.blocks] using hbody.1

theorem classDef_lays (decorators : List Expr) :
    Gathers t k (decorators.map .expr) (classDef r suite decorators)
      (t.Built fun s => [.stmt s]) := by
  refine .skip .keyword fun _ => .skip .name fun name =>
    .bind (typeParams_lays hr) fun typeParams => ?_
  refine .bind (.opt (arguments_lays hr)) fun args base lo hbase hheader => ?_
  refine .bind (hsuite lo) fun body hi h₁ hbody => .pure ?_
  cases args with
  | _ =>
    refine compound_built lo (by omega) h₁ (hheader.mono (Nat.le_refl _) h₁)
      (fun _ => rfl) (fun _ => ?_) (fun _ => by simp +contextual [Stmt.children, Stmt.blocks])
    simpa [Stmt.blocks] using hbody.1

theorem definition_lays : LaysStmt t (definition r suite) := by
  have hdecorator : LaysExpr t
      (do
        symbol .atSign
        let decorator ← r.expr
        token .newline
        return decorator) :=
    Gathers.skip .symbol fun _ => .bind hr.expr fun _ => .skip .token fun _ =>
      .wide (by omega) (by simp)
  have hdecorators : Lays t 0 (many
      (do
        symbol .atSign
        let decorator ← r.expr
        token .newline
        return decorator)) fun decorators => decorators.map .expr :=
    (Lays.many hdecorator).imp (Nat.le_refl _) (by simp)
  exact .bind hdecorators fun decorators =>
    .orElse (functionDef_lays hr hsuite decorators) (classDef_lays hr hsuite decorators)

theorem compoundStmt_lays : Lays t 1 (compoundStmt r suite) fun s => [.stmt s] :=
  .node <| .orElse (ifStmt_lays hr hsuite) <| .orElse (whileStmt_lays hr hsuite) <|
    .orElse (tryStmt_lays hr hsuite) <| .orElse (forStmt_lays hr hsuite) <|
      .orElse (withStmt_lays hr hsuite) <| .orElse (matchStmt_lays hr hsuite)
        (definition_lays hr hsuite)

end

/-! ### Lines and modules -/

include hr

/-- Lines lay their statements one after another, however deep blocks are nested in them. -/
theorem lineUpTo_lays (n : Nat) : LaysBlock t (lineUpTo r n) := by
  induction n with
  | zero => exact fun _ => .fail
  | succ n ih =>
    intro lo
    have hsuite : LaysBlock t (do symbol .colon; block r (lineUpTo r n)) := fun lo =>
      .bind (Lays.symbol.places lo) fun _ mid hmid _ => (block_lays hr ih mid).imp
        fun _ _ _ hstmts => ⟨hstmts.1.mono hmid (Nat.le_refl _), hstmts.2⟩
    refine .orElse (.bind ((compoundStmt_lays hr hsuite).places lo) fun s hi _ hs => .pure ?_)
      (simpleLine_lays hr lo)
    exact ⟨⟨hs.2, List.pairwise_singleton _ _⟩, by simp⟩

omit hr

/-- The statements of a module stand one after another. -/
theorem moduleUpTo_sequence {n : Nat} {module : Module} {last : Cursor}
    (h : (moduleUpTo n (.start t.stream)).result = some (module, last)) :
    ∃ hi, SequenceIn t 0 hi module.body := by
  have hmodule : Places t 0 (moduleUpTo n) fun hi module => SequenceIn t 0 hi module.body := by
    refine .bind (.many (lineUpTo_lays (ExprRules.upTo_laid t _) _)) fun lines mid _ hlines => ?_
    refine .bind .eof fun _ hi _ hend => .pure ?_
    rw [hend]
    exact lines_sequence hlines
  obtain ⟨hi, -, hsequence⟩ := hmodule (List.suffix_refl _) (Nat.zero_le _) h
  exact ⟨hi, hsequence⟩

end Grammar

/-- Every node of what is read from the tokens of a text is placed right. -/
theorem Module.placed_of_moduleUpTo {source : String} {stream : TokenStream} {n : Nat}
    {module : Module} {last : Cursor} (hstream : tokenize source = .ok stream)
    (h : (Grammar.moduleUpTo n (.start stream.tokens)).result = some (module, last)) :
    (∀ n, module.Has n → n.Placed source.toList) ∧ InSequence module.body := by
  obtain ⟨hi, hsequence⟩ := Grammar.moduleUpTo_sequence (t := .ofTokens hstream) h
  exact ⟨fun n ⟨s, hs, hn⟩ => (hsequence.liesIn hs).below n hn, hsequence.sequence⟩

/--
**Every node of a module stands where its span says.**  Its span is inside the text, it
holds its children, and a name or numeral is written there; the statements of a block
follow each other, and all statements of the module begin one after another.
-/
theorem parse_spans {source : String} {module : Module} (h : parse source = .ok module) :
    (∀ n, module.Has n → n.Placed source.toList) ∧
      InSequence module.body ∧ Ascend (allStmts module.body) := by
  obtain ⟨stream, last, hstream, hmodule⟩ := parse_cases h
  obtain ⟨hplaced, hsequence⟩ := Module.placed_of_moduleUpTo hstream hmodule
  refine ⟨hplaced, hsequence, (allStmts_ascend hsequence fun s hs => ?_).1⟩
  exact s.withInner_ascend fun n hn => hplaced n ⟨s, hs, hn⟩

/-- A chain of branches, a definition with a typed parameter, and a handler. -/
theorem parse_spans_nested :
    ∃ module, parse "if a:\n x = 1\nelif b:\n def f(p: int):\n  try: p\n  except E: (2, y)\n" =
        .ok module ∧
      (∀ n, module.Has n → n.Placed
        "if a:\n x = 1\nelif b:\n def f(p: int):\n  try: p\n  except E: (2, y)\n".toList) ∧
      InSequence module.body ∧ Ascend (allStmts module.body) := by
  have hok : (parse
      "if a:\n x = 1\nelif b:\n def f(p: int):\n  try: p\n  except E: (2, y)\n").toOption.isSome =
        true := by
    decide +kernel
  cases hparse : parse
      "if a:\n x = 1\nelif b:\n def f(p: int):\n  try: p\n  except E: (2, y)\n" with
  | error errors =>
    rw [hparse] at hok
    simp [Except.toOption] at hok
  | ok module => exact ⟨module, rfl, parse_spans hparse⟩

end Scrutiny
