/-
Expressions keep the names and literals of their text.

Each rule of the grammar of expressions is worth the names and literals among the
tokens it reads (`leafTally`): what the tree has as leaves is what was read, once
each.  The helpers that build nodes move leaves about without dropping any: a chain
of one operator is flattened, a single item is taken out of its list, arguments are
sorted by kind, trailers are folded onto a primary.

The three rules refer to each other, so they are assumed for the rules below
(`ExprRules.Counted`) and shown for each turn of the unrolling.
-/
import Mathlib.Tactic.Abel
import Scrutiny.Grammar.Expr
import Scrutiny.Proofs.Grammar.Tally

namespace Scrutiny

/-- Tokens are worth the names and literals among them. -/
def leafTally (stream : List Lexeme) : Tally (Multiset Token) where
  stream := stream
  weighs xs x := literals xs = x
  one token := literals [⟨token, default⟩]
  weighs_nil := literals_nil
  weighs_append hx hy := by rw [literals_append, hx, hy]
  weighs_one _ := by simp [literals]
  one_eq_zero h := by simp [literals, h]

/-- The three rules keep every name and literal. -/
structure ExprRules.Counted (s : List Lexeme) (r : ExprRules) : Prop where
  expr : Parser.Totals (leafTally s) 0 r.expr Expr.leaves
  operand : Parser.Totals (leafTally s) 0 r.operand Expr.leaves
  factor : Parser.Totals (leafTally s) 0 r.factor Expr.leaves

/-- The leaves of an item of a parameter list. -/
def ParamItem.leaves : ParamItem → Multiset Token
  | .slash | .star => 0
  | .param p => p.leaves

namespace Grammar

open Scrutiny.Parser (Totals)

/-! ### Building nodes -/

@[simp] theorem binary_leaves (left : Expr) (op : BinOp) (right : Expr) :
    (binary left op right).leaves = left.leaves + right.leaves := by
  simp [binary]

@[simp] theorem chain_leaves (op : BoolOp) (left right : Expr) :
    (chain op left right).leaves = left.leaves + right.leaves := by
  unfold chain
  split
  · split
    · simp
    · simp
  · simp

@[simp] theorem comparisonOf_leaves (left : Expr) (rest : List (CmpOp × Expr)) :
    (comparisonOf left rest).leaves = left.leaves + (rest.map (·.2.leaves)).sum := by
  unfold comparisonOf
  split
  · rename_i hnone
    simp [List.getLast?_eq_none_iff.mp hnone]
  · simp [Function.comp_def]

@[simp] theorem tupleUnlessSingle_leaves (items : List Expr) (trailing : Bool) (span : Span) :
    (tupleUnlessSingle items trailing span).leaves = (items.map Expr.leaves).sum := by
  unfold tupleUnlessSingle
  split <;> simp

@[simp] theorem parenthesized_leaves (inner : Option Expr) (span : Span) :
    (parenthesized inner span).leaves = inner.elim 0 Expr.leaves := by
  unfold parenthesized
  split <;> simp

/-- The leaves of an argument. -/
def Argument.leaves : Argument → Multiset Token
  | positional value => value.leaves
  | keyword argument => argument.leaves

/-- Sorting arguments by kind loses none. -/
theorem arguments_leaves (args : List Argument) :
    ((args.filterMap Argument.positional?).map Expr.leaves).sum +
      ((args.filterMap Argument.keyword?).map KeywordArg.leaves).sum =
        (args.map Argument.leaves).sum := by
  induction args with
  | nil => simp
  | cons arg args ih =>
    cases arg with
    | positional value =>
      simp only [List.filterMap_cons, Argument.positional?, Argument.keyword?, List.map_cons,
        List.sum_cons, Argument.leaves, ← ih]
      abel
    | keyword argument =>
      simp only [List.filterMap_cons, Argument.positional?, Argument.keyword?, List.map_cons,
        List.sum_cons, Argument.leaves, ← ih]
      abel

/-- The leaves of what follows the first element of a display. -/
def ElementTail.leaves : ElementTail → Multiset Token
  | clauses generators => (generators.map Comprehension.leaves).sum
  | more elements => (elements.map Expr.leaves).sum
  | nothing => 0

/-- The leaves of a trailer. -/
def Trailer.leaves : Trailer → Multiset Token
  | member attr => {.name attr}
  | call args keywords => (args.map Expr.leaves).sum + (keywords.map KeywordArg.leaves).sum
  | index item => item.leaves

@[simp] theorem withTrailer_leaves (value : Expr) (trailer : Trailer × Span) :
    (withTrailer value trailer).leaves = value.leaves + trailer.1.leaves := by
  obtain ⟨trailer, span⟩ := trailer
  cases trailer <;> simp [withTrailer, Trailer.leaves, add_assoc]

/-- Folding parts onto an expression adds their leaves. -/
theorem foldl_leaves {β : Type} {f : Expr → β → Expr} {w : β → Multiset Token}
    (hf : ∀ e b, (f e b).leaves = e.leaves + w b) (bs : List β) (e : Expr) :
    (bs.foldl f e).leaves = e.leaves + (bs.map w).sum := by
  induction bs generalizing e with
  | nil => simp
  | cons b bs ih => simp [ih, hf, add_assoc]

/-- Giving parameters their kinds loses none. -/
theorem assignKinds_leaves (slashAhead afterStar : Bool) (items : List ParamItem) :
    ((assignKinds slashAhead afterStar items).map Param.leaves).sum =
      (items.map ParamItem.leaves).sum := by
  induction items generalizing slashAhead afterStar with
  | nil => simp [assignKinds]
  | cons item items ih =>
    cases item with
    | slash => simp [assignKinds, ih, ParamItem.leaves]
    | star => simp [assignKinds, ih, ParamItem.leaves]
    | param p =>
      obtain ⟨name, kind, hint, default, span⟩ := p
      unfold assignKinds
      split <;> simp [ih, ParamItem.leaves]

section

variable {s : List Lexeme} {r : ExprRules}

/-! ### Lists of expressions -/

theorem name_counts : Totals (leafTally s) 0 Parser.name fun text => {.name text} := Totals.name

variable (hr : r.Counted s)

include hr

theorem starredOperand_counts : Totals (leafTally s) 0 (starredOperand r) Expr.leaves :=
  .skip (.spanOf .symbol) fun _ => .bind hr.operand fun _ => .pure (by simp)

theorem starItem_counts : Totals (leafTally s) 0 (starItem r) Expr.leaves :=
  .orElse (starredOperand_counts hr) hr.expr

omit hr in
theorem exprList_counts {item : Parser Expr} (hitem : Totals (leafTally s) 0 item Expr.leaves) :
    Totals (leafTally s) 0 (exprList item) Expr.leaves :=
  .node fun _ => .bind (.sepBy1 hitem .symbol) fun _ =>
    .skip (.optSkip .symbol) fun _ => .pure (by simp)

theorem targetList_counts : Totals (leafTally s) 0 (targetList r) Expr.leaves :=
  exprList_counts (.orElse (starredOperand_counts hr) hr.operand)

theorem yieldExpr_counts : Totals (leafTally s) 0 (yieldExpr r) Expr.leaves := by
  refine .node fun _ => .skip .keyword fun _ => .orElse ?_ ?_
  · exact .skip .keyword fun _ => .bind hr.expr fun _ => .pure (by simp)
  · exact .bind (.opt (exprList_counts (starItem_counts hr))) fun _ =>
      .pure (by simp)

/-! ### Comprehensions, arguments and parameters -/

theorem clause_counts : Totals (leafTally s) 0 (clause r) Comprehension.leaves := by
  refine .skip (.optSkip .keyword) fun _ => .skip .keyword fun _ => ?_
  refine .bind (targetList_counts hr) fun target => .skip .keyword fun _ => ?_
  refine .bind hr.expr fun iter => ?_
  refine .bind (.many (.skip .keyword fun _ => hr.expr)) fun conditions => ?_
  exact .pure (by simp)

theorem clauses_counts :
    Totals (leafTally s) 0 (clauses r) fun cs => (cs.map Comprehension.leaves).sum :=
  .many1 (clause_counts hr)

theorem positionalArgument_counts :
    Totals (leafTally s) 0 (positionalArgument r) Argument.leaves := by
  refine .node fun _ => .bind hr.expr fun value => ?_
  refine .bind (.opt (clauses_counts hr)) fun generators => .pure ?_
  cases generators with
  | none => simp [Argument.leaves]
  | some generators => simp [Argument.leaves]

theorem argument_counts : Totals (leafTally s) 0 (argument r) Argument.leaves := by
  refine .orElse ?_ (.orElse ?_ (.orElse ?_ (positionalArgument_counts hr)))
  · exact .skip .symbol fun _ => .bind hr.expr fun _ =>
      .pure (by simp [Argument.leaves])
  · exact .skip (.spanOf .symbol) fun _ => .bind hr.expr fun _ =>
      .pure (by simp [Argument.leaves])
  · exact .bind name_counts fun _ => .skip .symbol fun _ => .bind hr.expr fun _ =>
      .pure (by simp [Argument.leaves])

theorem arguments_counts : Totals (leafTally s) 0 (arguments r) fun args =>
      (args.1.map Expr.leaves).sum + (args.2.map KeywordArg.leaves).sum :=
  .bind (.bracketed (.sepEndBy (argument_counts hr) .symbol)) fun args =>
    .pure (by rw [zero_add, arguments_leaves])

theorem typeHint_counts (annotated : Bool) :
    Totals (leafTally s) 0 (typeHint r annotated) fun hint => hint.elim 0 Expr.leaves := by
  unfold typeHint
  split
  · exact .opt (.skip .symbol fun _ => hr.expr)
  · exact .pure rfl

theorem paramItem_counts (annotated : Bool) :
    Totals (leafTally s) 0 (paramItem r annotated) ParamItem.leaves := by
  have hnamed : Totals (leafTally s) 0
      (do
        let id ← Parser.name
        let hint ← typeHint r annotated
        return (id, hint)) fun found => {.name found.1} + found.2.elim 0 Expr.leaves :=
    .bind name_counts fun _ => .bind (typeHint_counts hr annotated) fun _ => .pure (by simp)
  refine .orElse ?_ (.orElse ?_ (.orElse ?_ ?_))
  · exact .skip .symbol fun _ => .pure rfl
  · refine .node fun _ => .skip .symbol fun _ => .bind name_counts fun _ => ?_
    exact .bind (typeHint_counts hr annotated) fun _ =>
      .pure (by simp [ParamItem.leaves])
  · refine .node fun _ => .skip .symbol fun _ => .bind (.opt hnamed) fun found => .pure ?_
    cases found with
    | none => simp [ParamItem.leaves]
    | some found => simp [ParamItem.leaves]
  · refine .node fun _ => .bind name_counts fun _ =>
      .bind (typeHint_counts hr annotated) fun _ => ?_
    exact .bind (.opt (.skip .symbol fun _ => hr.expr)) fun _ =>
      .pure (by simp [ParamItem.leaves])

theorem params_counts (annotated : Bool) :
    Totals (leafTally s) 0 (params r annotated) fun ps => (ps.map Param.leaves).sum :=
  .bind (.sepEndBy (paramItem_counts hr annotated) .symbol) fun items =>
    .pure (by rw [zero_add, resolveParams, assignKinds_leaves])

/-! ### Atoms -/

theorem elementTail_counts : Totals (leafTally s) 0 (elementTail r) ElementTail.leaves := by
  refine .orElse ?_ (.orElse ?_ (.pure rfl))
  · exact .bind (clauses_counts hr) fun _ => .pure (by simp [ElementTail.leaves])
  · exact .skip .symbol fun _ => .bind (.sepEndBy (starItem_counts hr) .symbol) fun _ =>
      .pure (by simp [ElementTail.leaves])

omit hr

theorem nameAtom_counts : Totals (leafTally s) 0 nameAtom Expr.leaves :=
  .node fun _ => .bind name_counts fun _ => .pure (by simp)

theorem constantAtom_counts : Totals (leafTally s) 0 constantAtom Expr.leaves := by
  refine .node fun _ => .bind (.satisfy (g := Constant.leaves) fun lexeme _ value hvalue => ?_)
    fun _ => .pure (by simp)
  split at hvalue
  case h_6 => simp at hvalue
  all_goals
    rename_i heq
    rw [heq, ← Option.some.inj hvalue]
    rfl

theorem stringAtom_counts : Totals (leafTally s) 0 stringAtom Expr.leaves := by
  refine .node fun _ => .bind (.many1 (.satisfy (g := fun text => {.string text})
    fun lexeme _ text htext => ?_)) fun parts => .pure ?_
  · split at htext
    · rename_i heq
      rw [heq, ← Option.some.inj htext]
      rfl
    · simp at htext
  · rw [zero_add, Expr.leaves, StringLiteral.leaves, StringLiteral.ofParts, sum_map_singleton]

include hr

theorem parenElements_counts : Totals (leafTally s) 0 (parenElements r) Expr.leaves := by
  refine .node fun _ => .bind (starItem_counts hr) fun first => ?_
  refine .bind (elementTail_counts hr) fun tail => .pure ?_
  cases tail <;> simp [ElementTail.leaves]

theorem parenAtom_counts : Totals (leafTally s) 0 (parenAtom r) Expr.leaves := by
  have hinner : Totals (leafTally s) 0
      ((do return some (← yieldExpr r)) <|> (do return some (← parenElements r)) <|> return none)
      fun inner => inner.elim 0 Expr.leaves :=
    .orElse (.bind (yieldExpr_counts hr) fun _ => .pure (by simp))
      (.orElse (.bind (parenElements_counts hr) fun _ => .pure (by simp)) (.pure rfl))
  exact .node fun _ => .bind (.bracketed hinner) fun _ => .pure (by simp)

theorem listAtom_counts : Totals (leafTally s) 0 (listAtom r) Expr.leaves := by
  have helements : Totals (leafTally s) 0
      (do
        let first ← starItem r
        let tail ← elementTail r
        return (first, tail)) fun found => found.1.leaves + found.2.leaves :=
    .bind (starItem_counts hr) fun _ => .bind (elementTail_counts hr) fun _ => .pure (by simp)
  refine .node fun _ => .bind (.bracketed (.opt helements)) fun inner => .pure ?_
  match inner with
  | none => simp
  | some (first, .clauses generators) => simp [ElementTail.leaves]
  | some (first, .more rest) => simp [ElementTail.leaves]
  | some (first, .nothing) => simp [ElementTail.leaves]

theorem spreadItem_counts : Totals (leafTally s) 0 (spreadItem r) DictItem.leaves :=
  .skip .symbol fun _ => .bind hr.operand fun _ => .pure (by simp)

theorem keyedItem_counts :
    Totals (leafTally s) 0 (keyedItem r) fun item => item.1.leaves + item.2.leaves :=
  .bind hr.expr fun _ => .skip .symbol fun _ => .bind hr.expr fun _ => .pure (by simp)

theorem moreItems_counts :
    Totals (leafTally s) 0 (moreItems r) fun items => (items.map DictItem.leaves).sum := by
  refine .bind (.opt (.skip .symbol fun _ => .sepEndBy (.orElse (spreadItem_counts hr) ?_) .symbol))
    fun items => .pure ?_
  · exact .bind (keyedItem_counts hr) fun _ => .pure (by simp)
  · cases items <;> simp

theorem braceBody_counts (span : Span) :
    Totals (leafTally s) 0 (braceBody r) fun build => (build span).leaves := by
  refine .orElse ?_ (.orElse ?_ (.orElse ?_ (.pure (by simp))))
  · exact .bind (spreadItem_counts hr) fun _ => .bind (moreItems_counts hr) fun _ =>
      .pure (by simp)
  · refine .bind (keyedItem_counts hr) fun _ => .orElse ?_ ?_
    · exact .bind (clauses_counts hr) fun _ => .pure (by simp)
    · exact .bind (moreItems_counts hr) fun _ => .pure (by simp)
  · refine .bind (starItem_counts hr) fun first =>
      .bind (elementTail_counts hr) fun tail => .pure ?_
    cases tail <;> simp [ElementTail.leaves]

theorem atom_counts : Totals (leafTally s) 0 (atom r) Expr.leaves :=
  .orElse nameAtom_counts <| .orElse constantAtom_counts <| .orElse stringAtom_counts <|
    .orElse (parenAtom_counts hr) <| .orElse (listAtom_counts hr)
      (.node fun span => .bracketed (braceBody_counts hr span))

/-! ### Primaries and operators -/

theorem sliceTail_counts : Totals (leafTally s) 0 (sliceTail r) fun bounds =>
      bounds.1.elim 0 Expr.leaves + bounds.2.elim 0 Expr.leaves := by
  refine .skip .symbol fun _ => .bind (.opt hr.expr) fun upper => ?_
  refine .bind (.opt (.skip .symbol fun _ => .opt hr.expr)) fun step => .pure ?_
  cases step <;> simp

theorem subscriptItem_counts : Totals (leafTally s) 0 (subscriptItem r) Expr.leaves := by
  refine .orElse ?_ (.orElse ?_ (starredOperand_counts hr))
  · refine .node fun _ => .bind hr.expr fun lower => ?_
    refine .bind (.opt (sliceTail_counts hr)) fun tail => .pure ?_
    cases tail with
    | none => simp
    | some bounds => simp [add_assoc]
  · exact .node fun _ => .bind (sliceTail_counts hr) fun _ => .pure (by simp)

theorem trailer_counts : Totals (leafTally s) 0 (trailer r) fun found => found.1.leaves := by
  refine .node fun _ => .bind (g := Trailer.leaves) (.orElse ?_ (.orElse ?_ ?_))
    fun _ => .pure (by simp)
  · exact .skip .symbol fun _ => .bind name_counts fun _ => .pure (by simp [Trailer.leaves])
  · exact .bind (arguments_counts hr) fun _ => .pure (by simp [Trailer.leaves])
  · exact .bind (.bracketed (exprList_counts (subscriptItem_counts hr))) fun _ =>
      .pure (by simp [Trailer.leaves])

theorem primary_counts : Totals (leafTally s) 0 (primary r) Expr.leaves :=
  .bind (atom_counts hr) fun _ => .bind (.many (trailer_counts hr)) fun _ =>
    .pure (by rw [zero_add, foldl_leaves withTrailer_leaves])

theorem awaitPrimary_counts : Totals (leafTally s) 0 (awaitPrimary r) Expr.leaves := by
  refine .skip (.optSkip (.spanOf .keyword)) fun mark => .bind (primary_counts hr) fun value => ?_
  refine .pure ?_
  cases mark <;> simp

theorem power_counts : Totals (leafTally s) 0 (power r) Expr.leaves := by
  refine .bind (awaitPrimary_counts hr) fun base => ?_
  refine .bind (.opt (.skip .symbol fun _ => hr.factor)) fun exponent => .pure ?_
  cases exponent <;> simp

theorem signed_counts : Totals (leafTally s) 0 (signed r) Expr.leaves :=
  .skip (.node fun _ => .skip (.satisfyMark fun _ => ⟨rfl, rfl, rfl⟩) fun _ => .pure rfl)
    fun _ => .bind hr.factor fun _ => .pure (by simp)

omit hr in
/-- Operators of one level keep the leaves of their operands, if no name and no
literal is an operator. -/
theorem binaryLevel_counts {operand : Parser Expr} {op? : Token → Option BinOp}
    (hoperand : Totals (leafTally s) 0 operand Expr.leaves)
    (hop : ∀ text, op? (.name text) = none ∧ op? (.number text) = none ∧
      op? (.string text) = none) :
    Totals (leafTally s) 0 (binaryLevel operand op?) Expr.leaves := by
  have hright : Totals (leafTally s) 0
      (do
        let op ← Parser.satisfy op?
        let right ← operand
        return (op, right)) fun found => found.2.leaves :=
    .skip (.satisfyMark hop) fun _ => .bind hoperand fun _ => .pure (by simp)
  refine .bind hoperand fun left => .bind (.many hright) fun rest => .pure ?_
  rw [zero_add]
  exact (foldl_leaves (fun e found => binary_leaves e found.1 found.2) rest left).symm

theorem bitOr_counts : Totals (leafTally s) 0 (bitOr r) Expr.leaves := by
  have hproduct : Totals (leafTally s) 0 (product r) Expr.leaves :=
    binaryLevel_counts hr.factor fun _ => ⟨rfl, rfl, rfl⟩
  have hsum : Totals (leafTally s) 0 (sum r) Expr.leaves :=
    binaryLevel_counts hproduct fun _ => ⟨rfl, rfl, rfl⟩
  have hshift : Totals (leafTally s) 0 (shift r) Expr.leaves :=
    binaryLevel_counts hsum fun _ => ⟨rfl, rfl, rfl⟩
  have hand : Totals (leafTally s) 0 (bitAnd r) Expr.leaves :=
    binaryLevel_counts hshift fun _ => ⟨rfl, rfl, rfl⟩
  have hxor : Totals (leafTally s) 0 (bitXor r) Expr.leaves :=
    binaryLevel_counts hand fun _ => ⟨rfl, rfl, rfl⟩
  exact binaryLevel_counts hxor fun _ => ⟨rfl, rfl, rfl⟩

/-! ### Comparisons and truth -/

omit hr in
theorem cmpOp_counts : Totals (leafTally s) 0 cmpOp fun _ => 0 := by
  refine .orElse ?_ (.orElse ?_ (.satisfyMark fun _ => ⟨rfl, rfl, rfl⟩))
  · exact .skip .keyword fun _ => .skip .keyword fun _ => .pure rfl
  · exact .skip .keyword fun _ => .skip .keyword fun _ => .pure rfl

theorem comparison_counts : Totals (leafTally s) 0 (comparison r) Expr.leaves := by
  have hright : Totals (leafTally s) 0
      (do
        let op ← cmpOp
        let right ← r.operand
        return (op, right)) fun found => found.2.leaves :=
    .skip cmpOp_counts fun _ => .bind hr.operand fun _ => .pure (by simp)
  exact .bind hr.operand fun _ => .bind (.many hright) fun _ => .pure (by simp)

theorem notTest_counts : Totals (leafTally s) 0 (notTest r) Expr.leaves := by
  refine .skip (.tail (.many (.spanOf .keyword)) fun marks => by simp) fun marks => ?_
  refine .bind (comparison_counts hr) fun operand => .pure ?_
  rw [zero_add]
  induction marks with
  | nil => rfl
  | cons mark marks ih => rw [List.foldr_cons, Expr.leaves, ih]

theorem andTest_counts : Totals (leafTally s) 0 (andTest r) Expr.leaves :=
  .bind (notTest_counts hr) fun _ =>
    .bind (.many (.skip .keyword fun _ => notTest_counts hr)) fun _ =>
      .pure (by rw [zero_add, foldl_leaves (chain_leaves .and)])

theorem orTest_counts : Totals (leafTally s) 0 (orTest r) Expr.leaves :=
  .bind (andTest_counts hr) fun _ =>
    .bind (.many (.skip .keyword fun _ => andTest_counts hr)) fun _ =>
      .pure (by rw [zero_add, foldl_leaves (chain_leaves .or)])

theorem conditional_counts : Totals (leafTally s) 0 (conditional r) Expr.leaves := by
  have htail : Totals (leafTally s) 0
      (do
        Parser.keyword .if_
        let test ← orTest r
        Parser.keyword .else_
        let orElse ← r.expr
        return (test, orElse)) fun found => found.1.leaves + found.2.leaves :=
    .skip .keyword fun _ => .bind (orTest_counts hr) fun _ => .skip .keyword fun _ =>
      .bind hr.expr fun _ => .pure (by simp)
  refine .bind (orTest_counts hr) fun body => .bind (.opt htail) fun tail => .pure ?_
  cases tail with
  | none => simp
  | some found =>
    simp only [Option.elim_some, Expr.leaves]
    abel

theorem lambda_counts : Totals (leafTally s) 0 (lambda r) Expr.leaves :=
  .node fun _ => .skip .keyword fun _ => .bind (params_counts hr false) fun _ =>
    .skip .symbol fun _ => .bind hr.expr fun _ => .pure (by simp)

theorem namedExpr_counts : Totals (leafTally s) 0 (namedExpr r) Expr.leaves :=
  .node fun _ => .bind nameAtom_counts fun _ => .skip .symbol fun _ => .bind hr.expr fun _ =>
    .pure (by simp)

theorem unroll_counted : (unroll r).Counted s where
  expr := .orElse (namedExpr_counts hr) (.orElse (lambda_counts hr) (conditional_counts hr))
  operand := bitOr_counts hr
  factor := .orElse (signed_counts hr) (power_counts hr)

end

end Grammar

/-- The rules keep every name and literal, however often they are unrolled. -/
theorem ExprRules.upTo_counted (s : List Lexeme) (n : Nat) : (ExprRules.upTo n).Counted s := by
  induction n with
  | zero => exact ⟨.fail, .fail, .fail⟩
  | succ n ih => exact Grammar.unroll_counted ih

end Scrutiny
