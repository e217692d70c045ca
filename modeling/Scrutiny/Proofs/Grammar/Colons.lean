/-
No simple statement ends in a colon.

A colon in a simple statement belongs to a lambda, an annotation, a slice or a dictionary, and
something of these always comes after it: an expression, or the bracket that closes.
`Closes s eats p` says that the last token that `p` takes is no colon, if it takes one, and
with `eats` that it does.  In a sequence only the last part that takes a token matters.

A header of a block, which ends in a colon, is so never the same line as simple statements.
-/
import Scrutiny.Proofs.Grammar.ExprShape
import Scrutiny.Proofs.Grammar.StmtShape

namespace Scrutiny

namespace Parser

variable {α β : Type} {s : List Lexeme}

/-- The tokens that a parser takes do not end in a colon; with `eats` there is one. -/
def Closes (s : List Lexeme) (eats : Bool) (p : Parser α) : Prop :=
  Reads s p fun ts _ => (eats = true → ts ≠ []) ∧ ts.getLast? ≠ some (.symbol .colon)

/-- Two lists of which neither ends in `a` do not end in it together. -/
theorem getLast?_append_ne {a : α} {xs ys : List α} (hxs : xs.getLast? ≠ some a)
    (hys : ys.getLast? ≠ some a) : (xs ++ ys).getLast? ≠ some a := by
  rw [List.getLast?_append]
  cases hlast : ys.getLast? with
  | none => exact hxs
  | some b =>
    rw [hlast] at hys
    exact hys

namespace Closes

variable {p q : Parser α} {f : α → Parser β} {Q : α → Prop} {eats : Bool} {sep : Parser Unit}

/-! ### Composition -/

theorem pure {a : α} : Closes s false (pure a) :=
  Reads.pure ⟨by simp, by simp⟩

theorem fail : Closes s eats (Parser.fail : Parser α) := Reads.fail

/-- What need not take a token comes second. -/
theorem bind (hp : Closes s eats p) (hf : ∀ a, Closes s false (f a)) : Closes s eats (p >>= f) := by
  refine Reads.bind hp fun ts a hts => (hf a).imp fun us b hus => ⟨?_, ?_⟩
  · intro heats
    exact List.append_ne_nil_of_left_ne_nil (hts.1 heats) us
  · exact getLast?_append_ne hts.2 hus.2

/-- Where the second part takes a token, nothing is asked of the first. -/
theorem after (hp : Yields s p Q) (hf : ∀ a, Closes s true (f a)) : Closes s true (p >>= f) := by
  refine Reads.bind hp fun ts a _ => (hf a).imp fun us b hus => ⟨?_, ?_⟩
  · intro _
    exact List.append_ne_nil_of_right_ne_nil ts (hus.1 rfl)
  · rw [List.getLast?_append_of_ne_nil ts (hus.1 rfl)]
    exact hus.2

theorem mayEat (hp : Closes s eats p) : Closes s false p :=
  hp.imp fun _ _ h => ⟨by simp, h.2⟩

theorem orElse (hp : Closes s eats p) (hq : Closes s eats q) : Closes s eats (p <|> q) :=
  Reads.orElse hp hq

theorem node {p : Parser (Span → α)} (hp : Closes s eats p) : Closes s eats (node p) :=
  Reads.node (hp.imp fun _ _ h _ => h)

/-! ### Tokens -/

theorem satisfy {pick : Token → Option α} (h : pick (.symbol .colon) = none) :
    Closes s true (satisfy pick) := by
  refine Reads.satisfy fun lexeme _ a ha => ⟨fun _ => List.cons_ne_nil _ _, fun hcolon => ?_⟩
  rw [List.getLast?_singleton, Option.some.injEq] at hcolon
  simp [hcolon, h] at ha

theorem token {t : Token} (h : t ≠ .symbol .colon) : Closes s true (token t) :=
  satisfy (if_neg h.symm)

theorem keyword {kw : Keyword} : Closes s true (keyword kw) := token Token.noConfusion

theorem name : Closes s true name := satisfy rfl

theorem comma : Closes s true Grammar.comma := token (by decide)

/-! ### Repetition -/

theorem many (hp : Closes s eats p) : Closes s false (many p) := by
  refine (Reads.many hp).imp fun ts as hpieces => ⟨by simp, ?_⟩
  induction hpieces with
  | nil => simp
  | cons hts _ ih => exact getLast?_append_ne hts.2 ih

theorem many1 (hp : Closes s eats p) : Closes s eats (many1 p) :=
  bind hp fun _ => bind (many hp) fun _ => pure

theorem opt (hp : Closes s eats p) : Closes s false (opt p) :=
  orElse (bind hp fun _ => pure).mayEat pure

theorem sepBy1 (hp : Closes s true p) (hsep : Closes s true sep) : Closes s true (sepBy1 p sep) :=
  bind hp fun _ => bind (many (bind hsep fun _ => hp.mayEat)) fun _ => pure

theorem sepEndBy1 (hp : Closes s true p) (hsep : Closes s true sep) :
    Closes s true (sepEndBy1 p sep) :=
  bind (sepBy1 hp hsep) fun _ => bind (opt hsep) fun _ => pure

/-- The bracket that closes comes last. -/
theorem bracketed {b : Bracket} (hp : Yields s p Q) : Closes s true (bracketed b p) :=
  after .symbol fun _ => after hp fun _ => bind (token (by simp)) fun _ => pure

end Closes

end Parser

/-- The three rules do not end in a colon. -/
structure ExprRules.Closes (s : List Lexeme) (r : ExprRules) : Prop extends r.Sound s where
  exprCloses : Parser.Closes s true r.expr
  operandCloses : Parser.Closes s true r.operand
  factorCloses : Parser.Closes s true r.factor

namespace Grammar

open Scrutiny.Parser (Closes Yields)

section

variable {s : List Lexeme} {r : ExprRules} (hr : r.Closes s)

/-! ### Expressions -/

theorem exprList_closes {item : Parser Expr} (h : Closes s true item) :
    Closes s true (exprList item) :=
  .node <| .bind (.sepBy1 h .comma) fun _ => .bind (.opt .comma) fun _ => .pure

include hr

theorem starItem_closes : Closes s true (starItem r) :=
  .orElse (.after (.spanOf .symbol) fun _ => .bind hr.operandCloses fun _ => .pure) hr.exprCloses

theorem yieldExpr_closes : Closes s true (yieldExpr r) := by
  refine .node <| .bind .keyword fun _ => .orElse ?_ ?_
  · exact (Closes.after .keyword fun _ => .bind hr.exprCloses fun _ => .pure).mayEat
  · exact .bind (.opt (exprList_closes (starItem_closes hr))) fun _ => .pure

theorem atom_closes : Closes s true (atom r) := by
  have hsome (p : Parser Expr) {Q : Expr → Prop} (hp : Yields s p Q) :
      Yields s (do return some (← p)) fun _ => True :=
    .bind hp fun _ _ => .pure trivial
  refine .orElse ?_ <| .orElse ?_ <| .orElse ?_ <| .orElse ?_ <| .orElse ?_ ?_
  · exact .node (.bind .name fun _ => .pure)
  · exact .node (.bind (.satisfy rfl) fun _ => .pure)
  · exact .node (.bind (.many1 (.satisfy rfl)) fun _ => .pure)
  · refine .node (.bind (.bracketed (Q := fun _ => True)
      (.orElse ?_ (.orElse ?_ (.pure trivial)))) fun _ => .pure)
    · exact hsome _ (yieldExpr_sound hr.toSound)
    · exact hsome _ (parenElements_sound hr.toSound)
  · refine .node (.bind (.bracketed (.optSkip ?_)) fun _ => .pure)
    exact .bind (starItem_sound hr.toSound) fun _ _ => .bind (elementTail_sound hr.toSound)
      fun _ _ => .pure trivial
  · exact .node (.bracketed (braceBody_sound hr.toSound))

theorem arguments_closes : Closes s true (arguments r) :=
  .bind (.bracketed (.sepEndBy (argument_sound hr.toSound) .symbol)) fun _ => .pure

theorem trailer_closes : Closes s true (trailer r) := by
  refine .node (.bind (.orElse ?_ (.orElse ?_ ?_)) fun _ => .pure)
  · exact .after .symbol fun _ => .bind .name fun _ => .pure
  · exact .bind (arguments_closes hr) fun _ => .pure
  · exact .bind (.bracketed (index_made hr.toSound)) fun _ => .pure

theorem power_closes : Closes s true (power r) := by
  refine .bind (.after (Yields.optSkip (.spanOf .keyword)) fun _ => ?_) fun _ =>
    .bind (.opt (.after .symbol fun _ => hr.factorCloses)) fun _ => .pure
  exact .bind (.bind (atom_closes hr) fun _ => .bind (.many (trailer_closes hr)) fun _ => .pure)
    fun _ => .pure

theorem factor_closes : Closes s true (signed r <|> power r) :=
  .orElse (.after (Q := fun _ => True) (.node (.bind .any fun _ _ => .pure fun _ => trivial))
    fun _ => .bind hr.factorCloses fun _ => .pure) (power_closes hr)

omit hr in
theorem binaryLevel_closes {operand : Parser Expr} {op? : Token → Option BinOp}
    (h : Closes s true operand) : Closes s true (binaryLevel operand op?) :=
  .bind h fun _ => .bind (.many (.after .any fun _ => .bind h fun _ => .pure)) fun _ => .pure

theorem bitOr_closes : Closes s true (bitOr r) :=
  binaryLevel_closes (binaryLevel_closes (binaryLevel_closes (binaryLevel_closes
    (binaryLevel_closes (binaryLevel_closes hr.factorCloses)))))

omit hr in
theorem chained_closes {operand : Parser Expr} (h : Closes s true operand) (kw : Keyword)
    (op : BoolOp) : Closes s true (do
      let left ← operand
      let rest ← Parser.many (do Parser.keyword kw; operand)
      return rest.foldl (chain op) left) :=
  .bind h fun _ => .bind (.many (.after .keyword fun _ => h)) fun _ => .pure

theorem orTest_closes : Closes s true (orTest r) := by
  have hcomparison : Closes s true (comparison r) :=
    .bind hr.operandCloses fun _ => .bind (.many (.after cmpOp_yields fun _ =>
      .bind hr.operandCloses fun _ => .pure)) fun _ => .pure
  have hnotTest : Closes s true (notTest r) :=
    .after (.many (.spanOf .keyword)) fun _ => .bind hcomparison fun _ => .pure
  exact chained_closes (chained_closes hnotTest .and_ .and) .or_ .or

theorem conditional_closes : Closes s true (conditional r) :=
  .bind (orTest_closes hr) fun _ => .bind (.opt (.after .keyword fun _ =>
    .after (orTest_sound hr.toSound) fun _ => .after .keyword fun _ =>
    .bind hr.exprCloses fun _ => .pure)) fun _ => .pure

theorem lambda_closes : Closes s true (lambda r) :=
  .node <| .after .keyword fun _ => .after (params_sound hr.toSound false) fun _ =>
    .after .symbol fun _ => .bind hr.exprCloses fun _ => .pure

theorem namedExpr_closes : Closes s true (namedExpr r) :=
  .node <| .after nameAtom_sound fun _ => .after .symbol fun _ =>
    .bind hr.exprCloses fun _ => .pure

theorem unroll_closes : (unroll r).Closes s where
  toSound := unroll_sound hr.toSound
  exprCloses := .orElse (namedExpr_closes hr) (.orElse (lambda_closes hr) (conditional_closes hr))
  operandCloses := bitOr_closes hr
  factorCloses := factor_closes hr

end

end Grammar

theorem ExprRules.upTo_closes (s : List Lexeme) (n : Nat) : (ExprRules.upTo n).Closes s := by
  induction n with
  | zero => exact ⟨ExprRules.upTo_sound s 0, .fail, .fail, .fail⟩
  | succ n ih => exact Grammar.unroll_closes ih

namespace Grammar

open Scrutiny.Parser (Closes Yields)

section

variable {s : List Lexeme} {r : ExprRules} (hr : r.Closes s)

/-! ### Simple statements -/

theorem asName_closes : Closes s false asName :=
  .opt (.after .keyword fun _ => .name)

theorem dottedName_closes : Closes s true dottedName :=
  .bind (.sepBy1 .name (.token (by decide))) fun _ => .pure

theorem importStmt_closes : Closes s true importStmt :=
  .after .keyword fun _ => .bind (.sepBy1 (.bind dottedName_closes fun _ =>
    .bind asName_closes fun _ => .pure) .comma) fun _ => .pure

theorem importedNames_closes : Closes s true importedNames := by
  have hyields : Yields s plainAlias fun _ => True :=
    .bind (.any) fun _ _ => .bind asName_yields fun _ _ => .pure trivial
  refine .orElse (.bind (.token (by decide)) fun _ => .pure)
    (.orElse (.bracketed (.sepEndBy1 hyields .symbol)) (.sepBy1 ?_ .comma))
  exact .bind .name fun _ => .bind asName_closes fun _ => .pure

theorem importFromStmt_closes : Closes s true importFromStmt := by
  have hlevel : Yields s relativeLevel fun _ => True :=
    .bind (.many .any) fun _ _ => .pure trivial
  refine .after .keyword fun _ => .after hlevel fun level =>
    .after (Yields.optSkip dottedName_yields) fun module => ?_
  have hnames : Closes s true (do
      Parser.keyword .import_
      let names ← importedNames
      return (Stmt.importFrom · module level names)) :=
    .after .keyword fun _ => .bind importedNames_closes fun _ => .pure
  dsimp only
  split
  · exact .after (Q := fun _ => True) .fail fun _ => hnames
  · exact hnames

/-- A keyword and some names. -/
theorem scopeStmt_closes {kw : Keyword} {build : List String → Span → Stmt} :
    Closes s true (do
      Parser.keyword kw
      let names ← Parser.sepBy1 Parser.name comma
      return build names) :=
  .after .keyword fun _ => .bind (.sepBy1 .name .comma) fun _ => .pure

include hr

theorem rightSide_closes : Closes s true (rightSide r) :=
  .orElse (yieldExpr_closes hr) (exprList_closes (starItem_closes hr))

theorem assignTail_closes : Closes s false (assignTail r) := by
  have hside : Closes s true (do Parser.symbol .assign; rightSide r) :=
    .after .symbol fun _ => rightSide_closes hr
  refine .orElse ?_ (.orElse ?_ (.orElse ?_ .pure))
  · exact (Closes.after .symbol fun _ => .bind hr.exprCloses fun _ =>
      .bind (.opt hside) fun _ => .pure).mayEat
  · exact (Closes.after .any fun _ => .bind (rightSide_closes hr) fun _ => .pure).mayEat
  · exact .bind hside.mayEat fun _ => .bind (.many hside) fun _ => .pure

theorem exprStmt_closes : Closes s true (exprStmt r) :=
  .bind (exprList_closes (starItem_closes hr)) fun _ => .bind (assignTail_closes hr) fun _ => .pure

/-- **No simple statement ends in a colon.** -/
theorem simpleStmt_closes : Closes s true (simpleStmt r) := by
  have hitems := exprList_closes (starItem_closes hr)
  refine .node <| .orElse (.bind .keyword fun _ => .pure) <|
    .orElse (.bind .keyword fun _ => .pure) <| .orElse (.bind .keyword fun _ => .pure) <|
    .orElse (.bind .keyword fun _ => .bind (.opt hitems) fun _ => .pure) <| .orElse ?_ <|
    .orElse (.after .keyword fun _ => .bind (.sepEndBy1 (starItem_closes hr) .comma)
      fun _ => .pure) <|
    .orElse ?_ <| .orElse scopeStmt_closes <| .orElse scopeStmt_closes <|
    .orElse importStmt_closes <| .orElse importFromStmt_closes <|
    .orElse (.bind (yieldExpr_closes hr) fun _ => .pure) <| .orElse ?_ (exprStmt_closes hr)
  · exact .bind .keyword fun _ => .bind (.opt (.bind hr.exprCloses fun _ =>
      .bind (.opt (.after .keyword fun _ => hr.exprCloses)) fun _ => .pure)) fun _ => .pure
  · exact .after .keyword fun _ => .bind hr.exprCloses fun _ =>
      .bind (.opt (.after .symbol fun _ => hr.exprCloses)) fun _ => .pure
  · exact .after .token fun _ => .after nameAtom_sound fun _ =>
      .after (typeParams_sound hr.toSound) fun _ => .after .symbol fun _ =>
      .bind hr.exprCloses fun _ => .pure

end

end Grammar

end Scrutiny
