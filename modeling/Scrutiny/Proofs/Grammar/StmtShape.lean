/-
Statements have the shape of ones that were written.

Each rule of the grammar of statements gives a well-formed tree, and every suite has a
statement in it (`BlockSound`).  That a `*` among imported names is alone rests on the
scanner: no name is written like that.

Statements nest through suites, so the rules are shown for each depth
(`Grammar.lineUpTo_sound`), and then a parsed module is well formed
(`parsed_tree_wellFormed`).
-/
import Scrutiny.Grammar.Module
import Scrutiny.Proofs.Grammar.ExprShape
import Scrutiny.Proofs.Grammar.StmtLeaves

namespace Scrutiny

/-- A statement that is well formed. -/
abbrev Stmt.Sound (s : Stmt) : Prop := (Node.stmt s).Sound

/-- A block of well-formed statements, with at least one in it. -/
structure BlockSound (stmts : List Stmt) : Prop where
  nonempty : stmts ≠ []
  stmts : ∀ s ∈ stmts, s.Sound

/-- A statement of the right form over what is sound. -/
theorem Stmt.sound_of {s : Stmt} (hform : s.Form) (hchildren : AllSound s.children) : s.Sound :=
  .of_children hform hchildren rfl

/-- No name of a token stream is a star. -/
def NoStarName (s : List Lexeme) : Prop :=
  ∀ lexeme ∈ s, lexeme.token ≠ .name "*"

theorem tokenize_noStarName {source : String} {stream : TokenStream}
    (h : tokenize source = .ok stream) : NoStarName stream.tokens := by
  intro lexeme hlexeme hname
  have hstart := (tokenize_isIdentifier h lexeme hlexeme "*" hname).1
  revert hstart
  decide

namespace Grammar

open Scrutiny.Parser (Yields)

section

variable {s : List Lexeme} {r : ExprRules}

/-! ### Imports -/

theorem asName_yields : Yields s asName fun _ => True :=
  .optSkip (.skip .keyword fun _ => .any)

theorem dottedName_yields : Yields s dottedName fun _ => True :=
  .bind (.sepBy1 .any .symbol) fun _ _ => .pure trivial

theorem importStmt_sound : Yields s importStmt fun build => ∀ span, (build span).Sound := by
  refine .skip .keyword fun _ => .bind (Q := fun names => names ≠ [] ∧ ∀ a ∈ names, True)
    (.sepBy1 (.skip dottedName_yields fun _ => .skip asName_yields fun _ => .pure trivial) .symbol)
    fun names hnames => .pure fun span => ?_
  exact Stmt.sound_of hnames.1 (by simp [Stmt.children])

theorem plainAlias_yields (hs : NoStarName s) : Yields s plainAlias fun a => a.name ≠ "*" := by
  refine .bind (Q := fun name => name ≠ "*") (.satisfy fun lexeme hlexeme name hname => ?_)
    fun name hname => .skip asName_yields fun _ => .pure hname
  rintro rfl
  refine hs lexeme hlexeme ?_
  split at hname
  · rename_i text htext
    rw [htext, Option.some.inj hname]
  · cases hname

theorem importedNames_yields (hs : NoStarName s) :
    Yields s importedNames fun names => names ≠ [] ∧ StarAlone names := by
  have hplain (names : List Alias) (h : names ≠ [] ∧ ∀ a ∈ names, a.name ≠ "*") :
      names ≠ [] ∧ StarAlone names :=
    ⟨h.1, fun a ha hstar => absurd hstar (h.2 a ha)⟩
  refine .orElse ?_ (.orElse ?_ ?_)
  · exact .skip .symbol fun _ => .pure ⟨by simp, by simp [StarAlone]⟩
  · exact (Yields.bracketed (.sepEndBy1 (plainAlias_yields hs) .symbol)).imp hplain
  · exact (Yields.sepBy1 (plainAlias_yields hs) .symbol).imp hplain

theorem importFromStmt_sound (hs : NoStarName s) :
    Yields s importFromStmt fun build => ∀ span, (build span).Sound := by
  have hlevel : Yields s relativeLevel fun _ => True :=
    .bind (.many .any) fun _ _ => .pure trivial
  refine .skip .keyword fun _ => .skip hlevel fun level => .skip (.optSkip dottedName_yields)
    fun module => ?_
  split
  · exact .bind (Q := fun _ => False) .fail fun _ hfalse => hfalse.elim
  · rename_i hsome
    refine .skip .keyword fun _ => .bind (importedNames_yields hs) fun names hnames =>
      .pure fun span => Stmt.sound_of ⟨hnames.1, ?_, hnames.2⟩ (by simp [Stmt.children])
    cases module with
    | none => exact .inl (by simpa [Nat.pos_iff_ne_zero] using hsome)
    | some module => exact .inr (by simp)

/-! ### Other simple statements -/

theorem namesStmt_sound {k : Keyword} {build : List String → Span → Stmt}
    (hbuild : ∀ names, names ≠ [] → ∀ span, (build names span).Sound) :
    Yields s (do Parser.keyword k; let names ← Parser.sepBy1 Parser.name comma; return build names)
      fun build => ∀ span, (build span).Sound :=
  .skip .keyword fun _ => .bind (.sepBy1 .any .symbol) fun names hnames =>
    .pure (hbuild names hnames.1)

section

variable (hr : r.Sound s)

include hr

theorem rightSide_sound : Yields s (rightSide r) Expr.Sound :=
  .orElse (yieldExpr_sound hr) (exprList_sound (starItem_sound hr))

theorem returnStmt_sound : Yields s (returnStmt r) fun build => ∀ span, (build span).Sound := by
  refine .skip .keyword fun _ => .bind (.opt (exprList_sound (starItem_sound hr)))
    fun value hvalue => .pure fun span => Stmt.sound_of trivial ?_
  simpa [Stmt.children] using hvalue

theorem raiseStmt_sound : Yields s (raiseStmt r) fun build => ∀ span, (build span).Sound := by
  refine .skip .keyword fun _ =>
    .bind (Q := fun raised => ∀ found ∈ raised, found.1.Sound ∧ ∀ e ∈ found.2, e.Sound)
    (.opt ?_) fun raised hraised => .pure fun span => ?_
  · exact .bind hr.expr fun _ hexc => .bind (.opt (.skip .keyword fun _ => hr.expr))
      fun _ hcause => .pure ⟨hexc, hcause⟩
  · cases raised with
    | none => exact Stmt.sound_of trivial (by simp [Stmt.children])
    | some found =>
      refine Stmt.sound_of trivial ?_
      simpa [Stmt.children] using hraised found rfl

theorem deleteStmt_sound : Yields s (deleteStmt r) fun build => ∀ span, (build span).Sound := by
  refine .skip .keyword fun _ => .bind (.sepEndBy1 (starItem_sound hr) .symbol)
    fun targets htargets => .pure fun span => Stmt.sound_of htargets.1 ?_
  simpa [Stmt.children] using htargets.2

theorem assertStmt_sound : Yields s (assertStmt r) fun build => ∀ span, (build span).Sound := by
  refine .skip .keyword fun _ => .bind hr.expr fun test htest =>
    .bind (.opt (.skip .symbol fun _ => hr.expr)) fun msg hmsg => .pure fun span =>
    Stmt.sound_of trivial ?_
  simpa [Stmt.children] using ⟨htest, hmsg⟩

theorem typeParam_sound : Yields s (typeParam r) fun p => (Node.typeParam p).Sound := by
  refine .node (.skip (.optSkip (.orElse .symbol .symbol)) fun _ => .skip .any fun name =>
    .bind (.opt (.skip .symbol fun _ => hr.expr)) fun bound hbound =>
    .skip (.optSkip (.skip .symbol fun _ => hr.expr.imp fun _ _ => trivial)) fun _ =>
    .pure fun span => .of_children trivial ?_ rfl)
  simpa [Node.children] using hbound

theorem typeParams_sound : Yields s (typeParams r) fun params =>
    ∀ p ∈ params, (Node.typeParam p).Sound := by
  refine .bind (.opt (.bracketed (.sepEndBy1 (typeParam_sound hr) .symbol))) fun found hfound =>
    .pure ?_
  cases found with
  | none => simp
  | some params => exact (hfound params rfl).2

theorem typeAlias_sound : Yields s (typeAlias r) fun build => ∀ span, (build span).Sound := by
  refine .skip .word fun _ => .bind nameAtom_sound fun name hname =>
    .bind (typeParams_sound hr) fun params hparams => .skip .symbol fun _ =>
    .bind hr.expr fun value hvalue => .pure fun span => Stmt.sound_of trivial ?_
  simpa [Stmt.children] using ⟨hname, hparams, hvalue⟩

/-- What follows the first expressions of a statement is sound. -/
def AssignTail.Sound : AssignTail → Prop
  | .annotated hint value => hint.Sound ∧ ∀ e ∈ value, e.Sound
  | .augmented _ value => value.Sound
  | .chained first more => first.Sound ∧ ∀ e ∈ more, e.Sound
  | .nothing => True

theorem assignTail_sound : Yields s (assignTail r) AssignTail.Sound := by
  have hside : Yields s (do Parser.symbol .assign; rightSide r) Expr.Sound :=
    .skip .symbol fun _ => rightSide_sound hr
  refine .orElse ?_ (.orElse ?_ (.orElse ?_ (.pure trivial)))
  · exact .skip .symbol fun _ => .bind hr.expr fun _ hhint => .bind (.opt hside)
      fun _ hvalue => .pure ⟨hhint, hvalue⟩
  · exact .skip .any fun _ => .bind (rightSide_sound hr) fun _ hvalue => .pure hvalue
  · exact .bind hside fun _ hfirst => .bind (.many hside) fun _ hmore => .pure ⟨hfirst, hmore⟩

omit hr in
theorem assignment_sound {target first : Expr} {more : List Expr} (htarget : target.Sound)
    (hfirst : first.Sound) (hmore : ∀ e ∈ more, e.Sound) (span : Span) :
    (assignment target first more span).Sound := by
  unfold assignment
  split
  · refine Stmt.sound_of (List.cons_ne_nil _ _) ?_
    simpa [Stmt.children] using ⟨htarget, hfirst⟩
  · rename_i value hlast
    refine Stmt.sound_of (List.cons_ne_nil _ _) ?_
    have htargets (e : Expr) (he : e ∈ more.dropLast) : e.Sound :=
      hmore e (List.mem_of_mem_dropLast he)
    have hvalue := hmore value (List.mem_of_getLast? hlast)
    simp only [Stmt.children, allSound_append, allSound_map, List.forall_mem_cons, allSound_cons]
    exact ⟨⟨htarget, hfirst, htargets⟩, hvalue, allSound_nil⟩

theorem exprStmt_sound : Yields s (exprStmt r) fun build => ∀ span, (build span).Sound := by
  refine .bind (exprList_sound (starItem_sound hr)) fun left hleft =>
    .bind (assignTail_sound hr) fun tail htail => .pure fun span => ?_
  cases tail with
  | annotated hint value =>
    exact Stmt.sound_of trivial (by simpa [Stmt.children] using ⟨hleft, htail⟩)
  | augmented op value =>
    exact Stmt.sound_of trivial (by simpa [Stmt.children] using ⟨hleft, htail⟩)
  | chained first more => exact assignment_sound hleft htail.1 htail.2 span
  | nothing => exact Stmt.sound_of trivial (by simpa [Stmt.children] using hleft)

theorem simpleStmt_sound (hs : NoStarName s) : Yields s (simpleStmt r) Stmt.Sound := by
  have hbare {k : Keyword} {build : Span → Stmt} (hbuild : ∀ span, (build span).Sound) :
      Yields s (do Parser.keyword k; return build) fun build => ∀ span, (build span).Sound :=
    .skip .keyword fun _ => .pure hbuild
  have hleaf {t : Stmt} (hform : t.Form) (hchildren : t.children = []) : t.Sound :=
    Stmt.sound_of hform (by simp [hchildren])
  refine .node <| .orElse (hbare fun _ => hleaf trivial rfl) <|
    .orElse (hbare fun _ => hleaf trivial rfl) <| .orElse (hbare fun _ => hleaf trivial rfl) <|
    .orElse (returnStmt_sound hr) <| .orElse (raiseStmt_sound hr) <|
    .orElse (deleteStmt_sound hr) <| .orElse (assertStmt_sound hr) <|
    .orElse (namesStmt_sound fun _ hnames _ => hleaf hnames rfl) <|
    .orElse (namesStmt_sound fun _ hnames _ => hleaf hnames rfl) <|
    .orElse importStmt_sound <| .orElse (importFromStmt_sound hs) <| .orElse ?_ <|
    .orElse (typeAlias_sound hr) (exprStmt_sound hr)
  refine .bind (yieldExpr_sound hr) fun value hvalue => .pure fun span => Stmt.sound_of trivial ?_
  simpa [Stmt.children] using hvalue

theorem simpleLine_sound (hs : NoStarName s) : Yields s (simpleLine r) BlockSound :=
  .bind (.sepEndBy1 (simpleStmt_sound hr hs) .symbol) fun _ hstmts => .skip .token fun _ =>
    .pure ⟨hstmts.1, hstmts.2⟩

/-! ### Compound statements -/

theorem block_sound (hs : NoStarName s) {line : Parser (List Stmt)}
    (hline : Yields s line BlockSound) : Yields s (block r line) BlockSound := by
  refine .orElse (.skip .token fun _ => .skip .token fun _ => .bind (.many1 hline)
    fun lines hlines => .skip .token fun _ => .pure ⟨?_, ?_⟩) (simpleLine_sound hr hs)
  · obtain ⟨first, more, rfl⟩ := List.exists_cons_of_ne_nil hlines.1
    simp [(hlines.2 first (by simp)).nonempty]
  · intro t ht
    obtain ⟨line, hmem, ht⟩ := List.mem_flatten.mp ht
    exact (hlines.2 line hmem).stmts t ht

end

section

variable {suite : Parser (List Stmt)} (hsuite : Yields s suite BlockSound)

include hsuite

theorem elseSuite_sound : Yields s (elseSuite suite) fun stmts => ∀ t ∈ stmts, t.Sound := by
  refine .bind (.opt (.skip .keyword fun _ => hsuite)) fun found hfound => .pure ?_
  cases found with
  | none => simp
  | some stmts => exact (hfound stmts rfl).stmts

omit hsuite in
/-- The `elif` clauses of a statement become statements in its else branch. -/
theorem nestElif_sound {elifs : List (Span × Expr × List Stmt)} {orElse : List Stmt}
    (helifs : ∀ clause ∈ elifs, clause.2.1.Sound ∧ BlockSound clause.2.2)
    (horElse : ∀ t ∈ orElse, t.Sound) : ∀ t ∈ elifs.foldr nestElif orElse, t.Sound := by
  induction elifs with
  | nil => exact horElse
  | cons clause elifs ih =>
    obtain ⟨mark, test, body⟩ := clause
    obtain ⟨htest, hbody⟩ := helifs (mark, test, body) (by simp)
    have hrest := ih fun other hother => helifs other (by simp [hother])
    intro t ht
    rw [List.mem_singleton.mp ht]
    refine Stmt.sound_of hbody.nonempty ?_
    simpa [Stmt.children, or_imp, forall_and] using ⟨htest, hbody.stmts, hrest⟩

variable (hr : r.Sound s)

include hr

theorem ifStmt_sound : Yields s (ifStmt r suite) fun build => ∀ span, (build span).Sound := by
  refine .skip .keyword fun _ => .bind hr.expr fun test htest => .bind hsuite fun body hbody =>
    .bind (Q := fun elifs => ∀ clause ∈ elifs, clause.2.1.Sound ∧ BlockSound clause.2.2) (.many ?_)
    fun elifs helifs => .bind (elseSuite_sound hsuite) fun orElse horElse => .pure fun span => ?_
  · exact .skip (.spanOf .keyword) fun _ => .bind hr.expr fun _ htest => .bind hsuite
      fun _ hbody => .pure ⟨htest, hbody⟩
  · refine Stmt.sound_of hbody.nonempty ?_
    simpa [Stmt.children, or_imp, forall_and] using
      ⟨htest, hbody.stmts, nestElif_sound helifs horElse⟩

theorem whileStmt_sound : Yields s (whileStmt r suite) fun build => ∀ span, (build span).Sound := by
  refine .skip .keyword fun _ => .bind hr.expr fun test htest => .bind hsuite fun body hbody =>
    .bind (elseSuite_sound hsuite) fun orElse horElse => .pure fun span =>
    Stmt.sound_of hbody.nonempty ?_
  simpa [Stmt.children, or_imp, forall_and] using ⟨htest, hbody.stmts, horElse⟩

theorem forStmt_sound : Yields s (forStmt r suite) fun build => ∀ span, (build span).Sound := by
  refine .skip (.optSkip .keyword) fun isAsync => .skip .keyword fun _ =>
    .bind (targetList_sound hr) fun target htarget => .skip .keyword fun _ =>
    .bind (exprList_sound (starItem_sound hr)) fun iter hiter => .bind hsuite fun body hbody =>
    .bind (elseSuite_sound hsuite) fun orElse horElse => .pure fun span =>
    Stmt.sound_of hbody.nonempty ?_
  simpa [Stmt.children, or_imp, forall_and] using ⟨htarget, hiter, hbody.stmts, horElse⟩

theorem handler_sound : Yields s (handler r suite) fun h => (Node.handler h).Sound := by
  refine .node (.skip .keyword fun _ => .skip (.optSkip .symbol) fun star =>
    .bind (Q := fun header => ∀ found ∈ header, found.1.Sound) (.opt ?_) fun header hheader =>
    .bind hsuite fun body hbody => .pure fun span => .of_children hbody.nonempty ?_ rfl)
  · exact .bind hr.expr fun _ htype => .skip asName_yields fun _ => .pure htype
  · cases header with
    | none => simpa [Node.children] using hbody.stmts
    | some found => simpa [Node.children] using ⟨hheader found rfl, hbody.stmts⟩

theorem tryStmt_sound : Yields s (tryStmt r suite) fun build => ∀ span, (build span).Sound := by
  have hfinally : Yields s (finallySuite suite) BlockSound := .skip .keyword fun _ => hsuite
  refine .skip .keyword fun _ => .bind hsuite fun body hbody => .orElse ?_ ?_
  · refine .bind (.many1 (handler_sound hsuite hr)) fun handlers hhandlers =>
      .bind (elseSuite_sound hsuite) fun orElse horElse => .bind (.opt hfinally)
      fun finalBody hfinal => .pure fun span =>
      Stmt.sound_of ⟨hbody.nonempty, .inl hhandlers.1, fun hnil => absurd hnil hhandlers.1⟩ ?_
    have hstmts : ∀ t ∈ finalBody.getD [], t.Sound := by
      cases finalBody with
      | none => simp
      | some stmts => exact (hfinal stmts rfl).stmts
    simpa [Stmt.children, or_imp, forall_and] using ⟨hbody.stmts, hhandlers.2, horElse, hstmts⟩
  · refine .bind hfinally fun finalBody hfinal => .pure fun span =>
      Stmt.sound_of ⟨hbody.nonempty, .inr hfinal.nonempty, fun _ => rfl⟩ ?_
    simpa [Stmt.children] using ⟨hbody.stmts, hfinal.stmts⟩

omit hsuite in
theorem withItem_sound : Yields s (withItem r) fun item => ∀ e ∈ item.exprs, e.Sound := by
  refine .bind hr.expr fun context hcontext => .bind (.opt (.skip .keyword fun _ => hr.operand))
    fun vars hvars => .pure ?_
  simpa [WithItem.exprs] using ⟨hcontext, hvars⟩

omit hsuite in
theorem withItems_sound : Yields s (withItems r) fun items =>
    ∀ item ∈ items, ∀ e ∈ item.exprs, e.Sound := by
  refine .orElse (.bind (.bracketed (.sepEndBy1 (withItem_sound hr) .symbol)) fun items hitems =>
    .skip .ahead fun _ => .pure hitems.2) ?_
  exact (Yields.sepBy1 (withItem_sound hr) .symbol).imp fun _ hitems => hitems.2

theorem withStmt_sound : Yields s (withStmt r suite) fun build => ∀ span, (build span).Sound := by
  refine .skip (.optSkip .keyword) fun isAsync => .skip .keyword fun _ =>
    .bind (withItems_sound hr) fun items hitems => .bind hsuite fun body hbody =>
    .pure fun span => Stmt.sound_of hbody.nonempty ?_
  simpa [Stmt.children] using ⟨fun e item hitem => hitems item hitem e, hbody.stmts⟩

theorem caseClause_sound : Yields s (caseClause r suite) fun c => (Node.case c).Sound := by
  refine .node (.skip .word fun _ => .bind (targetList_sound hr) fun pattern hpattern =>
    .bind (.opt (.skip .keyword fun _ => nameAtom_sound)) fun binding hbinding =>
    .bind (.opt (.skip .keyword fun _ => hr.expr)) fun guard hguard => .bind hsuite
    fun body hbody => .pure fun span => .of_children hbody.nonempty ?_ rfl)
  simpa [Node.children] using ⟨hpattern, hbinding, hguard, hbody.stmts⟩

theorem matchStmt_sound : Yields s (matchStmt r suite) fun build => ∀ span, (build span).Sound := by
  refine .skip .word fun _ => .bind (exprList_sound (starItem_sound hr)) fun subject hsubject =>
    .skip .symbol fun _ => .skip .token fun _ => .skip .token fun _ =>
    .bind (.many1 (caseClause_sound hsuite hr)) fun cases hcases => .skip .token fun _ =>
    .pure fun span => Stmt.sound_of hcases.1 ?_
  simpa [Stmt.children] using ⟨hsubject, hcases.2⟩

theorem functionDef_sound {decorators : List Expr} (hdecorators : ∀ e ∈ decorators, e.Sound) :
    Yields s (functionDef r suite decorators) fun build => ∀ span, (build span).Sound := by
  refine .skip (.optSkip .keyword) fun isAsync => .skip .keyword fun _ => .skip .any fun name =>
    .bind (typeParams_sound hr) fun typeParams htypeParams =>
    .bind (.bracketed (params_sound hr true)) fun params hparams =>
    .bind (.opt (.skip .symbol fun _ => hr.expr)) fun returns hreturns => .bind hsuite
    fun body hbody => .pure fun span => Stmt.sound_of hbody.nonempty ?_
  simpa [Stmt.children] using
    ⟨hdecorators, htypeParams, fun p hp => (hparams p hp).node, hreturns, hbody.stmts⟩

theorem classDef_sound {decorators : List Expr} (hdecorators : ∀ e ∈ decorators, e.Sound) :
    Yields s (classDef r suite decorators) fun build => ∀ span, (build span).Sound := by
  refine .skip .keyword fun _ => .skip .any fun name => .bind (typeParams_sound hr)
    fun typeParams htypeParams => .bind (.opt (arguments_sound hr)) fun args hargs =>
    .bind hsuite fun body hbody => .pure fun span => Stmt.sound_of hbody.nonempty ?_
  cases args with
  | none => simpa [Stmt.children] using ⟨hdecorators, htypeParams, hbody.stmts⟩
  | some args =>
    obtain ⟨hbases, hkeywords⟩ := hargs args rfl
    simpa [Stmt.children] using ⟨hdecorators, htypeParams, hbases, hkeywords, hbody.stmts⟩

theorem compoundStmt_sound : Yields s (compoundStmt r suite) Stmt.Sound := by
  refine .node <| .orElse (ifStmt_sound hsuite hr) <| .orElse (whileStmt_sound hsuite hr) <|
    .orElse (tryStmt_sound hsuite hr) <| .orElse (forStmt_sound hsuite hr) <|
    .orElse (withStmt_sound hsuite hr) <| .orElse (matchStmt_sound hsuite hr) ?_
  refine .bind (.many (.skip .symbol fun _ => .bind hr.expr fun _ he => .skip .token fun _ =>
    .pure he)) fun decorators hdecorators => ?_
  exact .orElse (functionDef_sound hsuite hr hdecorators) (classDef_sound hsuite hr hdecorators)

end

/-! ### Lines and modules -/

theorem lineUpTo_sound (hr : r.Sound s) (hs : NoStarName s) (n : Nat) :
    Yields s (lineUpTo r n) BlockSound := by
  induction n with
  | zero => exact .fail
  | succ n ih =>
    refine .orElse ?_ (simpleLine_sound hr hs)
    refine .bind (compoundStmt_sound (.skip .symbol fun _ => block_sound hr hs ih) hr)
      fun t ht => .pure ⟨List.cons_ne_nil _ _, by simpa using ht⟩

theorem moduleUpTo_sound (hs : NoStarName s) (n : Nat) :
    Yields s (moduleUpTo n) fun module => ∀ t ∈ module.body, t.Sound := by
  refine .bind (.many (lineUpTo_sound (ExprRules.upTo_sound s _) hs _)) fun lines hlines =>
    .skip .eof fun _ => .pure fun t ht => ?_
  obtain ⟨line, hmem, ht⟩ := List.mem_flatten.mp ht
  exact (hlines line hmem).stmts t ht

end

end Grammar

/-- What the string literals of a parsed module say of their parts is written in them. -/
theorem parse_asWritten {source : String} {module : Module}
    (h : parse source = .ok module) {n : Node} (hn : module.Has n) : n.AsWritten := by
  obtain ⟨stream, last, hstream, hread⟩ := parse_cases h
  obtain ⟨read, -, hbody⟩ :=
    Grammar.moduleUpTo_sound (tokenize_noStarName hstream) _ (List.suffix_refl _) hread
  obtain ⟨t, ht, hn⟩ := hn
  exact (hbody t ht).strings n hn

/--
**What was parsed is well formed.**  Every node of the tree has the shape of one that was
written: no block is empty but an `else` or a `finally`, no list that has to have an element
is without one, chains are flat at their head, and slices stand in subscripts only.
-/
theorem parsed_tree_wellFormed {source : String} {module : Module}
    (h : parse source = .ok module) : ∀ n, module.Has n → n.Shaped := by
  obtain ⟨stream, last, hstream, hread⟩ := parse_cases h
  obtain ⟨read, -, hbody⟩ :=
    Grammar.moduleUpTo_sound (tokenize_noStarName hstream) _ (List.suffix_refl _) hread
  rintro n ⟨t, ht, hn⟩
  exact (hbody t ht).wellFormed n hn

/-- A `try` without handlers, a slice in a tuple, a chain with brackets, a star import. -/
theorem parsed_tree_wellFormed_mixed : ∃ module, parse
      "try:\n x[a:b, c] = lambda *p, q=1: (p and q) and r < s <= t\nfinally:\n from . import *\n"
      = .ok module ∧ ∀ n, module.Has n → n.Shaped := by
  generalize hsource :
    "try:\n x[a:b, c] = lambda *p, q=1: (p and q) and r < s <= t\nfinally:\n from . import *\n"
      = source
  have hok : (parse source).toOption.isSome = true := by
    rw [← hsource]
    decide +kernel
  cases hparse : parse source with
  | error errors => simp [hparse, Except.toOption] at hok
  | ok module => exact ⟨module, rfl, parsed_tree_wellFormed hparse⟩

end Scrutiny
