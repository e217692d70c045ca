/-
Statements keep the names and literals of their text.

Each rule of the grammar of statements enters in the ledger what its statement is
worth.  A type parameter is the one node that does not keep all that it was read
from; everything else is as for expressions, with suites in place of operands.

Main statement: `parse_leaves`.  The names and literals of a text are the leaves of
its module, the words its statements are told by, and what stands in the defaults of
its type parameters.
-/
import Scrutiny.Grammar.Module
import Scrutiny.Proofs.Grammar.Ledger
import Scrutiny.Proofs.Token.Lossless

namespace Scrutiny

variable {module : Module}

namespace Grammar

open Scrutiny.Parser

variable {s : List Lexeme}

/-- A default, read and left out. -/
theorem default_result {n : Nat} {c next : Cursor} {found : Option Expr}
    (hc : c.rest <:+ s)
    (h : (opt (do symbol .assign; (ExprRules.upTo n).expr) c).result = some (found, next)) :
    ∃ default, c.Advances default next ∧ (default = [] ∨ ∃ mark value,
      default = mark :: value ∧ mark.token = .symbol .assign ∧ ReadsExpr value next.rest) := by
  rcases orElse_result.mp h with h | ⟨-, h⟩
  · obtain ⟨e, c₂, hread, hpure⟩ := bind_result.mp h
    obtain ⟨-, rfl⟩ := pure_result.mp hpure
    obtain ⟨_, c₁, hmark, hexpr⟩ := bind_result.mp hread
    obtain ⟨mark, htoken, hadv₁⟩ := satisfy_result hmark
    obtain ⟨value, -, hadv₂, -⟩ :=
      (ExprRules.upTo_counted s n).expr (hadv₁.suffix.trans hc) hexpr
    refine ⟨mark :: value, hadv₁.trans hadv₂, Or.inr ⟨mark, value, rfl, ?_, ?_⟩⟩
    · by_contra hne
      simp [hne] at htoken
    · exact ⟨n, c₁, e, next, hadv₂.rest, rfl, hexpr⟩
  · obtain ⟨-, rfl⟩ := pure_result.mp h
    exact ⟨[], .refl _, Or.inl rfl⟩

/-- A type parameter is worth its leaves and itself. -/
theorem typeParam_counts (n : Nat) :
    Totals (ledgerTally s) 0 (typeParam (.upTo n)) fun p => (p.leaves, {p}) := by
  have hr := ExprRules.upTo_counted s n
  have hhead : Totals (leafTally s) 0
      (do
        let _ ← opt (symbol .doubleStar <|> symbol .star)
        let name ← Parser.name
        let bound ← opt (do symbol .colon; (ExprRules.upTo n).expr)
        return (name, bound)) fun found => {.name found.1} + found.2.elim 0 Expr.leaves :=
    .skip (.optSkip (.orElse .symbol .symbol)) fun _ => .bind name_counts fun _ =>
      .bind (.opt (.skip .symbol fun _ => hr.expr)) fun _ => .pure (by simp)
  intro c p next hc hresult
  obtain ⟨build, hbuild, rfl⟩ := node_result.mp hresult
  obtain ⟨star, c₁, hstar, hbuild⟩ := bind_result.mp hbuild
  obtain ⟨name, c₂, hname, hbuild⟩ := bind_result.mp hbuild
  obtain ⟨bound, c₃, hbound, hbuild⟩ := bind_result.mp hbuild
  obtain ⟨_, c₄, hdefault, hbuild⟩ := bind_result.mp hbuild
  obtain ⟨rfl, rfl⟩ := pure_result.mp hbuild
  obtain ⟨head, x, hadv, hweighs, htotal⟩ := hhead hc (bind_result.mpr ⟨star, c₁, hstar,
    bind_result.mpr ⟨name, c₂, hname, bind_result.mpr ⟨bound, c₃, hbound,
      pure_result.mpr ⟨rfl, rfl⟩⟩⟩⟩)
  obtain ⟨default, hadv', hform⟩ := default_result (hadv.suffix.trans hc) hdefault
  have hleaves : literals head = (⟨name, bound, ⟨c.here, next.edge⟩⟩ : TypeParam).leaves := by
    rw [zero_add] at htotal
    simp only [TypeParam.leaves, leavesOpt_eq, ← htotal]
    exact hweighs
  have hne : head ++ default ≠ [] := by
    intro hnil
    rw [(List.append_eq_nil_iff.mp hnil).1] at hleaves
    simp [TypeParam.leaves] at hleaves
  obtain ⟨before, hbefore⟩ := hc
  refine ⟨head ++ default, _, hadv.trans hadv', ⟨{(_, default)}, ?_, rfl, ?_⟩, zero_add _⟩
  · intro d hd
    rw [Multiset.mem_singleton.mp hd]
    refine ⟨before, head, next.rest, ?_, (hadv.trans hadv').frames hne, hleaves, hform⟩
    rw [List.append_assoc, ← (hadv.trans hadv').rest, hbefore]
    rfl
  · simp [hleaves]

/-- A word that tells a statement is one name. -/
theorem word_counts {text : String} :
    Totals (ledgerTally s) 0 (word text) fun _ => ({.name text}, 0) :=
  Totals.word

theorem typeParams_counts (n : Nat) : Totals (ledgerTally s) 0 (typeParams (.upTo n)) fun ps =>
      ((ps.map TypeParam.leaves).sum, ↑ps) := by
  have hsum (ps : List TypeParam) : (ps.map fun p => (p.leaves, ({p} : Multiset TypeParam))).sum =
      ((ps.map TypeParam.leaves).sum, ↑ps) := by
    induction ps with
    | nil => rfl
    | cons p ps ih => rw [List.map_cons, List.sum_cons, ih]; rfl
  refine .bind (.opt (.bracketed (.sepEndBy1 (typeParam_counts n) .symbol))) fun ps => .pure ?_
  cases ps with
  | none => rfl
  | some ps => rw [zero_add, Option.elim_some, hsum, Option.getD_some]

/-! ### Imports -/

/-- A name that is an identifier is its own only component. -/
theorem dottedLeaves_of_isIdentifier {text : String} (h : IsIdentifier text.toList) :
    dottedLeaves text = {.name text} := by
  have hdot : '.' ∉ text.toList := h.not_mem (by decide) (by decide)
  have hstar : text.toList ≠ ['*'] := by
    intro hchars
    exact h.not_mem (c := '*') (by decide) (by decide) (by simp [hchars])
  simp [dottedLeaves, List.splitOn_eq_singleton hdot, componentLeaves, hstar]

section

-- Without this an imported name could have a dot of its own, or be `*`.
variable (hs : ∀ lexeme ∈ s, ∀ text, lexeme.token = .name text → IsIdentifier text.toList)

include hs

theorem component_counts : Totals (leafTally s) 0 Parser.name dottedLeaves := by
  refine .satisfy fun lexeme hlexeme text htext => ?_
  split at htext
  · rename_i name heq
    cases htext
    rw [heq, dottedLeaves_of_isIdentifier (hs lexeme hlexeme _ heq)]
    rfl
  · simp at htext

theorem dottedName_counts : Totals (leafTally s) 0 dottedName dottedLeaves := by
  have hname := component_counts hs
  -- The parts are opened up: that there is a first one is what makes the name.
  intro c text next hc hresult
  obtain ⟨parts, c₂, hparts, hpure⟩ := bind_result.mp hresult
  obtain ⟨rfl, rfl⟩ := pure_result.mp hpure
  obtain ⟨first, c₁, hfirst, hrest⟩ := bind_result.mp hparts
  obtain ⟨rest, c₂, hrest, hpure⟩ := bind_result.mp hrest
  obtain ⟨rfl, rfl⟩ := pure_result.mp hpure
  rw [dottedLeaves_intercalate]
  exact Totals.sepBy1 hname .symbol hc hparts

omit hs in
theorem asName_counts :
    Totals (leafTally s) 0 asName fun name => name.elim 0 fun text => {.name text} :=
  .opt (.skip .keyword fun _ => name_counts)

theorem importStmt_counts (span : Span) :
    Totals (ledgerTally s) 0 importStmt fun build => entries [build span] := by
  have halias : Totals (leafTally s) 0
      (do
        let name ← dottedName
        let asName ← asName
        return (⟨name, asName⟩ : Alias)) Alias.leaves :=
    .bind (dottedName_counts hs) fun _ => .bind asName_counts fun _ =>
      .pure (by simp [Alias.leaves])
  exact .skip .keyword fun _ => .bind (.ledger (.sepBy1 halias .symbol)) fun _ =>
    .pure (by simp [entries, Stmt.entry])

theorem importedNames_counts :
    Totals (leafTally s) 0 importedNames fun names => (names.map Alias.leaves).sum := by
  have halias : Totals (leafTally s) 0 plainAlias Alias.leaves :=
    .bind (component_counts hs) fun _ => .bind asName_counts fun _ =>
      .pure (by simp [Alias.leaves])
  have hstar : (Alias.mk "*" none).leaves = 0 := by
    have hsplit : ['*'].splitOn '.' = [['*']] := by decide
    simp [Alias.leaves, dottedLeaves, hsplit, componentLeaves]
  refine .orElse ?_ (.orElse (.bracketed (.sepEndBy1 halias .symbol)) (.sepBy1 halias .symbol))
  exact .skip .symbol fun _ => .pure (by simp [hstar])

theorem importFromStmt_counts (span : Span) :
    Totals (ledgerTally s) 0 importFromStmt fun build => entries [build span] := by
  have hdots : Totals (ledgerTally s) 0 relativeLevel fun _ => 0 :=
    .skip (.tail (.many (.satisfyMark fun _ => ⟨rfl, rfl, rfl⟩)) fun _ => by simp)
      fun _ => .pure rfl
  refine .skip .keyword fun _ => .skip hdots fun level => ?_
  refine .bind (.ledger (.opt (dottedName_counts hs))) fun module => ?_
  have hnames : Totals (ledgerTally s) (0 + (module.elim 0 dottedLeaves, 0))
      (do
        keyword .import_
        let names ← importedNames
        return (.importFrom · module level names)) fun build => entries [build span] :=
    .skip .keyword fun _ => .bind (.ledger (importedNames_counts hs)) fun _ =>
      .pure (by simp [entries, Stmt.entry])
  split
  · exact .skip .fail fun _ => hnames
  · exact hnames

end

/-! ### Other simple statements -/

section

variable {r : ExprRules}

variable (hr : r.Counted s)

include hr

theorem rightSide_counts : Totals (leafTally s) 0 (rightSide r) Expr.leaves :=
  .orElse (yieldExpr_counts hr) (exprList_counts (starItem_counts hr))

theorem returnStmt_counts (span : Span) :
    Totals (ledgerTally s) 0 (returnStmt r) fun build => entries [build span] :=
  .skip .keyword fun _ => .bind (.ledger (.opt (exprList_counts (starItem_counts hr)))) fun _ =>
    .pure (by simp [entries, Stmt.entry])

theorem raiseStmt_counts (span : Span) :
    Totals (ledgerTally s) 0 (raiseStmt r) fun build => entries [build span] := by
  have hraised : Totals (leafTally s) 0
      (do
        let exc ← r.expr
        let cause ← opt (do keyword .from_; r.expr)
        return (exc, cause)) fun found => found.1.leaves + found.2.elim 0 Expr.leaves :=
    .bind hr.expr fun _ => .bind (.opt (.skip .keyword fun _ => hr.expr)) fun _ => .pure (by simp)
  refine .skip .keyword fun _ => .bind (.ledger (.opt hraised)) fun raised => .pure ?_
  cases raised <;> simp [entries, Stmt.entry]

theorem deleteStmt_counts (span : Span) :
    Totals (ledgerTally s) 0 (deleteStmt r) fun build => entries [build span] :=
  .skip .keyword fun _ => .bind (.ledger (.sepEndBy1 (starItem_counts hr) .symbol)) fun _ =>
    .pure (by simp [entries, Stmt.entry])

theorem assertStmt_counts (span : Span) :
    Totals (ledgerTally s) 0 (assertStmt r) fun build => entries [build span] :=
  .skip .keyword fun _ => .bind (.ledger hr.expr) fun _ =>
    .bind (.ledger (.opt (.skip .symbol fun _ => hr.expr))) fun _ =>
      .pure (by simp [entries, Stmt.entry])

omit hr

theorem globalStmt_counts (span : Span) :
    Totals (ledgerTally s) 0 globalStmt fun build => entries [build span] :=
  .skip .keyword fun _ => .bind (.ledger (.sepBy1 name_counts .symbol)) fun _ =>
    .pure (by simp [entries, Stmt.entry, sum_map_singleton])

theorem nonlocalStmt_counts (span : Span) :
    Totals (ledgerTally s) 0 nonlocalStmt fun build => entries [build span] :=
  .skip .keyword fun _ => .bind (.ledger (.sepBy1 name_counts .symbol)) fun _ =>
    .pure (by simp [entries, Stmt.entry, sum_map_singleton])

theorem typeAlias_counts (n : Nat) (span : Span) :
    Totals (ledgerTally s) 0 (typeAlias (.upTo n)) fun build => entries [build span] := by
  have hr := ExprRules.upTo_counted s n
  refine .bind word_counts fun _ => .bind (.ledger nameAtom_counts) fun name => ?_
  refine .bind (typeParams_counts n) fun params => .skip .symbol fun _ => ?_
  refine .bind (.ledger hr.expr) fun value => .pure ?_
  simp only [entries_typeAlias, zero_add, Prod.mk_add_mk, add_zero]

/-- The leaves of what follows the first expressions of a statement. -/
def AssignTail.leaves : AssignTail → Multiset Token
  | .annotated hint value => hint.leaves + value.elim 0 Expr.leaves
  | .augmented _ value => value.leaves
  | .chained first more => first.leaves + (more.map Expr.leaves).sum
  | .nothing => 0

include hr

theorem assignTail_counts : Totals (leafTally s) 0 (assignTail r) AssignTail.leaves := by
  have hside : Totals (leafTally s) 0 (do symbol .assign; rightSide r) Expr.leaves :=
    .skip .symbol fun _ => rightSide_counts hr
  refine .orElse ?_ (.orElse ?_ (.orElse ?_ (.pure rfl)))
  · exact .skip .symbol fun _ => .bind hr.expr fun _ => .bind (.opt hside) fun _ =>
      .pure (by simp [AssignTail.leaves])
  · exact .skip (.satisfyMark fun _ => ⟨rfl, rfl, rfl⟩) fun _ =>
      .bind (rightSide_counts hr) fun _ => .pure (by simp [AssignTail.leaves])
  · exact .bind hside fun _ => .bind (.many hside) fun _ => .pure (by simp [AssignTail.leaves])

omit hr in
/-- However the sides of an assignment are shared out, none is lost. -/
theorem assignment_entries (target first : Expr) (more : List Expr) (span : Span) :
    entries [assignment target first more span] =
      (target.leaves + first.leaves + (more.map Expr.leaves).sum, 0) := by
  unfold assignment
  split
  · rename_i hnone
    simp [entries, Stmt.entry, List.getLast?_eq_none_iff.mp hnone]
  · rename_i value hvalue
    obtain ⟨inits, rfl⟩ := List.getLast?_eq_some_iff.mp hvalue
    simp [entries, Stmt.entry, add_assoc]

theorem exprStmt_counts (span : Span) :
    Totals (ledgerTally s) 0 (exprStmt r) fun build => entries [build span] := by
  refine .bind (.ledger (exprList_counts (starItem_counts hr))) fun left => ?_
  refine .bind (.ledger (assignTail_counts hr)) fun tail => .pure ?_
  cases tail with
  | chained first more => simp [assignment_entries, AssignTail.leaves, add_assoc]
  | _ => simp [entries, Stmt.entry, AssignTail.leaves, add_assoc]

end

section

variable (hs : ∀ lexeme ∈ s, ∀ text, lexeme.token = .name text → IsIdentifier text.toList) (n : Nat)

include hs

theorem simpleStmt_counts :
    Totals (ledgerTally s) 0 (simpleStmt (.upTo n)) fun stmt => entries [stmt] := by
  have hr := ExprRules.upTo_counted s n
  have hword (k : Keyword) (stmt : Span → Stmt) (span : Span) (hstmt : entries [stmt span] = 0) :
      Totals (ledgerTally s) 0 (do keyword k; return stmt) fun build => entries [build span] :=
    .skip .keyword fun _ => .pure hstmt.symm
  refine .node fun span => ?_
  refine .orElse (hword .pass_ _ span (by simp [entries, Stmt.entry])) ?_
  refine .orElse (hword .break_ _ span (by simp [entries, Stmt.entry])) ?_
  refine .orElse (hword .continue_ _ span (by simp [entries, Stmt.entry])) ?_
  refine .orElse (returnStmt_counts hr span) (.orElse (raiseStmt_counts hr span) ?_)
  refine .orElse (deleteStmt_counts hr span) (.orElse (assertStmt_counts hr span) ?_)
  refine .orElse (globalStmt_counts span) (.orElse (nonlocalStmt_counts span) ?_)
  refine .orElse (importStmt_counts hs span) (.orElse (importFromStmt_counts hs span) ?_)
  refine .orElse ?_ (.orElse (typeAlias_counts n span) (exprStmt_counts hr span))
  exact .bind (.ledger (yieldExpr_counts hr)) fun _ => .pure (by simp [entries, Stmt.entry])

theorem simpleLine_counts : Totals (ledgerTally s) 0 (simpleLine (.upTo n)) entries := by
  refine .bind (.sepEndBy1 (simpleStmt_counts hs n) .symbol) fun stmts => ?_
  refine .skip (.token rfl) fun _ => .pure ?_
  rw [zero_add, ← entries_eq_sum]

theorem block_counts {line : Parser (List Stmt)} (hline : Totals (ledgerTally s) 0 line entries) :
    Totals (ledgerTally s) 0 (block (.upTo n) line) entries := by
  refine .orElse ?_ (simpleLine_counts hs n)
  refine .skip (.token rfl) fun _ => .skip (.token rfl) fun _ =>
    .bind (.many1 hline) fun lines => ?_
  exact .skip (.token rfl) fun _ => .pure (by rw [zero_add, entries_flatten])

end

/-! ### Compound statements -/

/-- Each `elif` is put into the else branch before it, and none is lost. -/
theorem entries_nestElif (elifs : List (Span × Expr × List Stmt)) (orElse : List Stmt) :
    entries (elifs.foldr nestElif orElse) =
      (elifs.map fun found => (found.2.1.leaves, 0) + entries found.2.2).sum + entries orElse := by
  induction elifs with
  | nil => simp
  | cons clause elifs ih =>
    rw [List.foldr_cons, List.map_cons, List.sum_cons, add_assoc, ← ih]
    exact entries_if ..

section

variable {r : ExprRules} {suite : Parser (List Stmt)} (hr : r.Counted s)
  (hsuite : Totals (ledgerTally s) 0 suite entries)

include hsuite

theorem elseSuite_counts : Totals (ledgerTally s) 0 (elseSuite suite) entries := by
  refine .bind (.opt (.skip .keyword fun _ => hsuite)) fun stmts => .pure ?_
  cases stmts <;> simp

include hr

theorem ifStmt_counts (span : Span) :
    Totals (ledgerTally s) 0 (ifStmt r suite) fun build => entries [build span] := by
  have helif : Totals (ledgerTally s) 0
      (do
        let mark ← spanOf (keyword .elif_)
        let test ← r.expr
        let body ← suite
        return (mark, test, body)) fun found => (found.2.1.leaves, 0) + entries found.2.2 :=
    .skip (.spanOf .keyword) fun _ => .bind (.ledger hr.expr) fun _ => .bind hsuite fun _ =>
      .pure (by rw [zero_add])
  refine .skip .keyword fun _ => .bind (.ledger hr.expr) fun test => .bind hsuite fun body => ?_
  refine .bind (.many helif) fun elifs => .bind (elseSuite_counts hsuite) fun orElse => .pure ?_
  rw [entries_if, entries_nestElif, zero_add, add_assoc]

theorem whileStmt_counts (span : Span) :
    Totals (ledgerTally s) 0 (whileStmt r suite) fun build => entries [build span] := by
  refine .skip .keyword fun _ => .bind (.ledger hr.expr) fun test => .bind hsuite fun body => ?_
  refine .bind (elseSuite_counts hsuite) fun orElse => .pure ?_
  simp [entries, Stmt.entry, add_assoc]

theorem forStmt_counts (span : Span) :
    Totals (ledgerTally s) 0 (forStmt r suite) fun build => entries [build span] := by
  refine .skip (.optSkip .keyword) fun _ => .skip .keyword fun _ => ?_
  refine .bind (.ledger (targetList_counts hr)) fun target => .skip .keyword fun _ => ?_
  refine .bind (.ledger (exprList_counts (starItem_counts hr))) fun iter => ?_
  refine .bind hsuite fun body => .bind (elseSuite_counts hsuite) fun orElse => .pure ?_
  simp [entries, Stmt.entry, add_assoc]

theorem handler_counts : Totals (ledgerTally s) 0 (handler r suite) Handler.entries := by
  have hheader : Totals (leafTally s) 0
      (do
        let type ← r.expr
        let name ← asName
        return (type, name)) fun found =>
          found.1.leaves + found.2.elim 0 fun text => {.name text} :=
    .bind hr.expr fun _ => .bind asName_counts fun _ => .pure (by simp)
  refine .node fun span => .skip .keyword fun _ => .skip (.optSkip .symbol) fun _ => ?_
  refine .bind (.ledger (.opt hheader)) fun header => .bind hsuite fun body => .pure ?_
  cases header <;> simp [Handler.entries, Handler.headLeaves]

theorem tryStmt_counts (span : Span) :
    Totals (ledgerTally s) 0 (tryStmt r suite) fun build => entries [build span] := by
  have hfinally : Totals (ledgerTally s) 0 (finallySuite suite) entries :=
    .skip .keyword fun _ => hsuite
  refine .skip .keyword fun _ => .bind hsuite fun body => .orElse ?_ ?_
  · refine .bind (.many1 (handler_counts hr hsuite)) fun handlers => ?_
    refine .bind (elseSuite_counts hsuite) fun orElse => .bind (.opt hfinally) fun finalBody => ?_
    refine .pure ?_
    cases finalBody <;> simp [entries_try]
  · exact .bind hfinally fun finalBody => .pure (by simp [entries_try])

theorem withStmt_counts (span : Span) :
    Totals (ledgerTally s) 0 (withStmt r suite) fun build => entries [build span] := by
  have hitem : Totals (leafTally s) 0 (withItem r) WithItem.leaves :=
    .bind hr.expr fun _ => .bind (.opt (.skip .keyword fun _ => hr.operand)) fun _ =>
      .pure (by simp [WithItem.leaves])
  have hitems : Totals (leafTally s) 0 (withItems r) fun items => (items.map WithItem.leaves).sum :=
    .orElse (.bind (.bracketed (.sepEndBy1 hitem .symbol)) fun _ =>
      .skip .ahead fun _ => .pure (by rw [zero_add])) (.sepBy1 hitem .symbol)
  refine .skip (.optSkip .keyword) fun _ => .skip .keyword fun _ => ?_
  refine .bind (.ledger hitems) fun items => .bind hsuite fun body => .pure ?_
  simp [entries, Stmt.entry]

theorem caseClause_counts : Totals (ledgerTally s) 0 (caseClause r suite) MatchCase.entries := by
  refine .node fun span => .bind word_counts fun _ => ?_
  refine .bind (.ledger (targetList_counts hr)) fun pattern => ?_
  refine .bind (.ledger (.opt (.skip .keyword fun _ => nameAtom_counts))) fun binding => ?_
  refine .bind (.ledger (.opt (.skip .keyword fun _ => hr.expr))) fun guard => ?_
  refine .bind hsuite fun body => .pure ?_
  simp only [MatchCase.entries, MatchCase.headLeaves, leavesOpt_eq, zero_add, Prod.mk_add_mk,
    add_zero]
  congr 2
  abel

theorem matchStmt_counts (span : Span) :
    Totals (ledgerTally s) 0 (matchStmt r suite) fun build => entries [build span] := by
  refine .bind word_counts fun _ => ?_
  refine .bind (.ledger (exprList_counts (starItem_counts hr))) fun subject => ?_
  refine .skip .symbol fun _ => .skip (.token rfl) fun _ => .skip (.token rfl) fun _ => ?_
  refine .bind (.many1 (caseClause_counts hr hsuite)) fun cases => .skip (.token rfl) fun _ => ?_
  refine .pure ?_
  simp only [entries_match, zero_add, Prod.mk_add_mk, add_zero]

end

section

variable {suite : Parser (List Stmt)} (n : Nat) (hsuite : Totals (ledgerTally s) 0 suite entries)

include hsuite

/-- A function enters its decorators as well, which are read before it. -/
theorem functionDef_counts (decorators : List Expr) (span : Span) :
    Totals (ledgerTally s) ((decorators.map Expr.leaves).sum, 0)
      (functionDef (.upTo n) suite decorators) fun build => entries [build span] := by
  have hr := ExprRules.upTo_counted s n
  refine .skip (.optSkip .keyword) fun _ => .skip .keyword fun _ => ?_
  refine .bind (.ledger name_counts) fun name => .bind (typeParams_counts n) fun typeParams => ?_
  refine .bind (.ledger (.bracketed (params_counts hr true))) fun params => ?_
  refine .bind (.ledger (.opt (.skip .symbol fun _ => hr.expr))) fun returns => ?_
  refine .bind hsuite fun body => .pure ?_
  simp [entries, Stmt.entry, FunctionDef.headLeaves]

theorem classDef_counts (decorators : List Expr) (span : Span) :
    Totals (ledgerTally s) ((decorators.map Expr.leaves).sum, 0)
      (classDef (.upTo n) suite decorators) fun build => entries [build span] := by
  have hr := ExprRules.upTo_counted s n
  refine .skip .keyword fun _ => .bind (.ledger name_counts) fun name => ?_
  refine .bind (typeParams_counts n) fun typeParams => ?_
  refine .bind (.ledger (.opt (arguments_counts hr))) fun args => .bind hsuite fun body => ?_
  refine .pure ?_
  cases args <;> simp [entries, Stmt.entry, ClassDef.headLeaves, add_assoc]

theorem definition_counts (span : Span) :
    Totals (ledgerTally s) 0 (definition (.upTo n) suite) fun build => entries [build span] := by
  have hr := ExprRules.upTo_counted s n
  have hdecorator : Totals (leafTally s) 0
      (do
        symbol .atSign
        let decorator ← (ExprRules.upTo n).expr
        token .newline
        return decorator) Expr.leaves :=
    .skip .symbol fun _ => .bind hr.expr fun _ => .skip (.token rfl) fun _ =>
      .pure (by rw [zero_add])
  refine .bind (.ledger (.many hdecorator)) fun decorators => ?_
  rw [zero_add]
  exact .orElse (functionDef_counts n hsuite decorators span)
    (classDef_counts n hsuite decorators span)

theorem compoundStmt_counts :
    Totals (ledgerTally s) 0 (compoundStmt (.upTo n) suite) fun stmt => entries [stmt] := by
  have hr := ExprRules.upTo_counted s n
  refine .node fun span => ?_
  refine .orElse (ifStmt_counts hr hsuite span) (.orElse (whileStmt_counts hr hsuite span) ?_)
  refine .orElse (tryStmt_counts hr hsuite span) (.orElse (forStmt_counts hr hsuite span) ?_)
  exact .orElse (withStmt_counts hr hsuite span)
    (.orElse (matchStmt_counts hr hsuite span) (definition_counts n hsuite span))

end

/-! ### Modules -/

section

variable (hs : ∀ lexeme ∈ s, ∀ text, lexeme.token = .name text → IsIdentifier text.toList)

include hs

/-- Lines enter what their statements do, however deep blocks are nested in them. -/
theorem lineUpTo_counts (n k : Nat) : Totals (ledgerTally s) 0 (lineUpTo (.upTo n) k) entries := by
  induction k with
  | zero => exact .fail
  | succ k ih =>
    have hsuite : Totals (ledgerTally s) 0
        (do symbol .colon; block (.upTo n) (lineUpTo (.upTo n) k)) entries :=
      .skip .symbol fun _ => block_counts hs n ih
    exact .orElse (.bind (compoundStmt_counts n hsuite) fun _ => .pure (by rw [zero_add]))
      (simpleLine_counts hs n)

theorem moduleUpTo_counts (n : Nat) :
    Totals (ledgerTally s) 0 (moduleUpTo n) fun module => entries module.body :=
  .bind (.many (lineUpTo_counts hs _ _)) fun _ => .skip .eof fun _ =>
    .pure (by rw [zero_add, entries_flatten])

end

/-- A module leaves nothing unread. -/
theorem moduleUpTo_rest {n : Nat} {c next : Cursor}
    (h : (moduleUpTo n c).result = some (module, next)) : next.rest = [] := by
  obtain ⟨lines, mid, -, hend⟩ := bind_result.mp h
  obtain ⟨_, last, heof, hpure⟩ := bind_result.mp hend
  obtain ⟨hrest, rfl⟩ := eof_result.mp heof
  obtain ⟨-, rfl⟩ := pure_result.mp hpure
  exact hrest

end Grammar

/-- Tokens parse if all of them can be read and all targets can be assigned to. -/
theorem parseTokens_eq_ok {tokens : List Lexeme} {size : Nat} :
    parseTokens tokens size = .ok module ↔
      (∃ last, (Grammar.moduleUpTo tokens.length (.start tokens)).result = some (module, last)) ∧
        module.targetFault? = none := by
  cases hread : (Grammar.moduleUpTo tokens.length (.start tokens)).result with
  | none => simp [parseTokens, hread]
  | some found =>
    obtain ⟨read, last⟩ := found
    cases htarget : read.targetFault? with
    | none =>
      simp only [parseTokens, hread, htarget, Except.ok.injEq, Option.some.injEq,
        Prod.mk.injEq, exists_eq_right']
      constructor
      · rintro rfl
        exact ⟨rfl, htarget⟩
      · exact And.left
    | some fault =>
      simp only [parseTokens, hread, htarget, reduceCtorEq, Option.some.injEq,
        Prod.mk.injEq, false_iff, not_and]
      rintro ⟨_, rfl, -⟩
      simp [htarget]

/-- A text that parses has a token stream, which parses too. -/
theorem parse_eq_ok {source : String} : parse source = .ok module ↔
    ∃ stream, tokenize source = .ok stream ∧
      parseTokens stream.tokens (byteLength source.toList) = .ok module := by
  cases hstream : tokenize source with
  | error errors => simp [parse, hstream]
  | ok stream =>
    cases hmodule : parseTokens stream.tokens (byteLength source.toList) with
    | error error => simp [parse, hstream, hmodule]
    | ok found => simp [parse, hstream, hmodule]

/-- A text that parses has a token stream, and all of it was read as the module. -/
theorem parse_cases {source : String} (h : parse source = .ok module) :
    ∃ stream last, tokenize source = .ok stream ∧
      (Grammar.moduleUpTo stream.tokens.length (.start stream.tokens)).result =
        some (module, last) := by
  obtain ⟨stream, hstream, hmodule⟩ := parse_eq_ok.mp h
  obtain ⟨⟨last, hread⟩, -⟩ := parseTokens_eq_ok.mp hmodule
  exact ⟨stream, last, hstream, hread⟩

/--
**Parsing neither loses nor invents names and literals.**  Those of the token stream
are the leaves of the module, the words its statements are told by, and what stands
in the defaults of its type parameters, each counted as often as it occurs.
-/
theorem parse_leaves {source : String} {module : Module} (h : parse source = .ok module) :
    ∃ (stream : TokenStream) (defaults : Multiset (TypeParam × List Lexeme)),
      tokenize source = .ok stream ∧ defaults.map Prod.fst = module.typeParams ∧
      (∀ d ∈ defaults, d.1.ReadWith stream.tokens d.2) ∧
      literals stream.tokens = module.leaves + module.softWords +
        (defaults.map fun d => literals d.2).sum := by
  obtain ⟨stream, last, hstream, hmodule⟩ := parse_cases h
  have hs := tokenize_isIdentifier hstream
  obtain ⟨read, x, hadv, ⟨defaults, hread, hparams, hliterals⟩, htotal⟩ :=
    Grammar.moduleUpTo_counts hs _ (List.suffix_refl _) hmodule
  have htokens : stream.tokens = read := by
    simpa [Cursor.start, Grammar.moduleUpTo_rest hmodule] using hadv.rest
  have hx : x = (module.leaves + module.softWords, module.typeParams) := by
    rw [← entries_module, ← zero_add x]
    exact htotal
  rw [hx] at hparams hliterals
  exact ⟨stream, defaults, hstream, hparams, hread, by rw [htokens, hliterals]⟩

/-- A default that is left out, three words that are used up, and a dotted name. -/
theorem parse_leaves_soft :
    ∃ module, parse "type A[T: int = str] = T\nmatch a.b:\n case 1:\n  import c.d as e\n" =
        .ok module ∧
      ∃ (stream : TokenStream) (defaults : Multiset (TypeParam × List Lexeme)),
        tokenize "type A[T: int = str] = T\nmatch a.b:\n case 1:\n  import c.d as e\n" =
          .ok stream ∧
        defaults.map Prod.fst = module.typeParams ∧
        (∀ d ∈ defaults, d.1.ReadWith stream.tokens d.2) ∧
        literals stream.tokens = module.leaves + module.softWords +
          (defaults.map fun d => literals d.2).sum := by
  have hok : (parse
      "type A[T: int = str] = T\nmatch a.b:\n case 1:\n  import c.d as e\n").toOption.isSome =
        true := by
    decide +kernel
  cases hparse : parse "type A[T: int = str] = T\nmatch a.b:\n case 1:\n  import c.d as e\n" with
  | error errors =>
    rw [hparse] at hok
    simp [Except.toOption] at hok
  | ok module => exact ⟨module, rfl, parse_leaves hparse⟩

end Scrutiny
