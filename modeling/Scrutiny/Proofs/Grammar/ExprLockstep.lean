/-
Expressions are read in lockstep.

An expression never reaches over the end of its line, so all its rules need to know
about the remaining tokens is that they agree up to the next mark of the layout
(`Linkage.Inline`).  What the rules build commutes with recasting, which is said
first, for each way of building a node.

The three rules are assumed to keep pace on fewer than `n` tokens and shown to on
fewer than `n + 1` where a token is read before they are referred to.  Three turns of
the unrolling buy one token (`ExprRules.iterate_paired`).
-/
import Mathlib.Logic.Function.Iterate
import Scrutiny.Grammar.Expr
import Scrutiny.Proofs.Grammar.Lockstep

namespace Scrutiny

/-! ### Building nodes commutes with recasting -/

@[simp] theorem Span.respan_cover (u : Nat → Nat) (a b : Span) :
    (Span.cover a b).respan u = .cover (a.respan u) (b.respan u) := rfl

section

variable (m : Recast)

/-- An item of a parameter list, recast. -/
@[simp] def ParamItem.recast : ParamItem → ParamItem
  | slash => slash
  | star => star
  | param p => param (m.param p)

theorem assignKinds_recast (slashAhead afterStar : Bool) (items : List ParamItem) :
    (assignKinds slashAhead afterStar items).map m.param
      = assignKinds slashAhead afterStar (items.map (ParamItem.recast m)) := by
  induction items generalizing slashAhead afterStar with
  | nil => rfl
  | cons item items ih =>
    cases item with
    | slash => exact ih false afterStar
    | star => exact ih slashAhead true
    | param p =>
      obtain ⟨name, kind, hint, default, span⟩ := p
      cases kind <;> simp [assignKinds, ih]

theorem resolveParams_recast (items : List ParamItem) :
    (resolveParams items).map m.param = resolveParams (items.map (ParamItem.recast m)) := by
  have hslash : ParamItem.isSlash ∘ ParamItem.recast m = ParamItem.isSlash := by
    funext item
    cases item <;> rfl
  rw [resolveParams, resolveParams, List.any_map, hslash, assignKinds_recast]

namespace Grammar

/-- An argument, recast. -/
@[simp] def Argument.recast : Argument → Argument
  | positional value => positional (m.expr value)
  | keyword argument => keyword (m.keyword argument)

/-- What follows the first element of a display, recast. -/
def ElementTail.recast : ElementTail → ElementTail
  | clauses generators => clauses (generators.map m.clause)
  | more elements => more (elements.map m.expr)
  | nothing => nothing

/-- A trailer, recast. -/
@[simp] def Trailer.recast : Trailer → Trailer
  | member attr => member (m.ident attr)
  | call args keywords => call (args.map m.expr) (keywords.map m.keyword)
  | index item => index (m.expr item)

@[simp] theorem binary_recast (left : Expr) (op : BinOp) (right : Expr) :
    m.expr (binary left op right) = binary (m.expr left) op (m.expr right) := by
  simp [binary]

@[simp] theorem chain_recast (op : BoolOp) (left right : Expr) :
    m.expr (chain op left right) = chain op (m.expr left) (m.expr right) := by
  cases left with
  | boolOp span leftOp values =>
    simp only [chain, Recast.boolOp]
    split <;> simp
  | _ => simp [chain]

@[simp] theorem tupleUnlessSingle_recast (items : List Expr) (trailing : Bool) (span : Span) :
    m.expr (tupleUnlessSingle items trailing span)
      = tupleUnlessSingle (items.map m.expr) trailing (span.respan m.offset) := by
  match items, trailing with
  | [], _ => simp [tupleUnlessSingle]
  | [item], false => simp [tupleUnlessSingle]
  | [item], true => simp [tupleUnlessSingle]
  | _ :: _ :: _, _ => simp [tupleUnlessSingle]

@[simp] theorem parenthesized_recast (inner : Option Expr) (span : Span) :
    m.expr (parenthesized inner span)
      = parenthesized (inner.map m.expr) (span.respan m.offset) := by
  cases inner with
  | none => simp [parenthesized]
  | some e => cases e <;> simp [parenthesized]

@[simp] theorem comparisonOf_recast (left : Expr) (rest : List (CmpOp × Expr)) :
    m.expr (comparisonOf left rest)
      = comparisonOf (m.expr left) (rest.map (Prod.map id m.expr)) := by
  unfold comparisonOf
  rw [List.getLast?_map]
  cases rest.getLast? with
  | none => rfl
  | some found => simp [Function.comp_def]

theorem withTrailer_recast (value : Expr) (found : Trailer × Span) :
    m.expr (withTrailer value found)
      = withTrailer (m.expr value) (Prod.map (Trailer.recast m) (Span.respan m.offset) found) := by
  obtain ⟨trailer, span⟩ := found
  cases trailer <;> simp [withTrailer]

/-- Folding parts onto an expression, from left to right. -/
theorem foldl_recast {β : Type} {m : Recast} {f : Expr → β → Expr} {g : β → β}
    (h : ∀ e b, m.expr (f e b) = f (m.expr e) (g b)) (bs : List β) (e : Expr) :
    m.expr (bs.foldl f e) = (bs.map g).foldl f (m.expr e) := by
  rw [List.foldl_map]
  exact (List.foldl_hom m.expr fun e b => (h e b).symm).symm

theorem foldr_not_recast (marks : List Span) (operand : Expr) :
    m.expr (marks.foldr (fun mark operand =>
      Expr.unaryOp (.cover mark operand.span) .not operand) operand)
      = (marks.map (Span.respan m.offset)).foldr (fun mark operand =>
        .unaryOp (.cover mark operand.span) .not operand) (m.expr operand) := by
  induction marks with
  | nil => rfl
  | cons mark marks ih => simp [ih]

/-- Sorting arguments by kind commutes with recasting them. -/
theorem arguments_recast (args : List Argument) : (args.filterMap Argument.positional?).map m.expr
        = (args.map (Argument.recast m)).filterMap Argument.positional? ∧
      (args.filterMap Argument.keyword?).map m.keyword
        = (args.map (Argument.recast m)).filterMap Argument.keyword? := by
  simp only [List.map_filterMap, List.filterMap_map]
  constructor
  all_goals
    congr 1
    funext arg
    cases arg <;> rfl

end Grammar

end

/-! ### The rules -/

/-- The three rules of two runs keep pace on fewer than `n` tokens. -/
structure ExprRules.Paired (P : Pairing) (T : Linkage) (n : Nat) (r r' : ExprRules) : Prop
    extends T.Inline P where
  expr : Parser.Lockstep P n true T T r.expr r'.expr (P.Same Recast.expr)
  operand : Parser.Lockstep P n true T T r.operand r'.operand (P.Same Recast.expr)
  factor : Parser.Lockstep P n true T T r.factor r'.factor (P.Same Recast.expr)

theorem ExprRules.Paired.mono {P : Pairing} {T : Linkage} {n m : Nat} {r r' : ExprRules}
    (hr : r.Paired P T n r') (hm : m ≤ n) : r.Paired P T m r' :=
  ⟨hr.toInline, hr.expr.mono hm, hr.operand.mono hm, hr.factor.mono hm⟩

namespace Grammar

open Scrutiny.Parser (Lockstep)

section

variable {P : Pairing} {T : Linkage} {n : Nat} {r r' : ExprRules}

/-! ### Lists of expressions -/

variable (hr : r.Paired P T n r')

include hr

theorem starredOperand_lockstep :
    Lockstep P (n + 1) true T T (starredOperand r) (starredOperand r') (P.Same Recast.expr) :=
  .step (.spanOf hr.symbol) fun _ _ hstar => .bind hr.operand fun _ _ hvalue =>
    .pure (by simp [hstar, hvalue])

theorem starItem_lockstep : Lockstep P n true T T (starItem r) (starItem r') (P.Same Recast.expr) :=
  .orElse ((starredOperand_lockstep hr).mono (Nat.le_succ n)) hr.expr

variable (hT : T.Inline P)

include hT

omit hr in
theorem exprList_lockstep {item item' : Parser Expr}
    (h : Lockstep P n true T T item item' (P.Same Recast.expr)) :
    Lockstep P n true T T (exprList item) (exprList item') (P.Same Recast.expr) :=
  .node <| .andThen (.sepBy1 h hT.symbol) fun _ _ hitems =>
    .bind (.optPlain hT.symbol) fun _ _ htrailing => .pure fun _ _ hspan => by
      simp [hitems, htrailing, hspan]

omit hT

theorem targetList_lockstep :
    Lockstep P n true T T (targetList r) (targetList r') (P.Same Recast.expr) :=
  exprList_lockstep hr.toInline
    (.orElse ((starredOperand_lockstep hr).mono (Nat.le_succ n)) hr.operand)

theorem yieldExpr_lockstep :
    Lockstep P (n + 1) true T T (yieldExpr r) (yieldExpr r') (P.Same Recast.expr) :=
  .node <| .step hr.keyword fun _ _ _ => .orElse
    (.bind hr.keyword fun _ _ _ => .bind hr.expr fun _ _ hvalue =>
      .pure fun _ _ hspan => by simp [hvalue, hspan])
    (.bind (.opt (exprList_lockstep hr.toInline (starItem_lockstep hr))) fun _ _ hvalue =>
      .pure fun _ _ hspan => by simp [hvalue, hspan])

/-! ### Comprehensions, arguments and parameters -/

theorem clause_lockstep :
    Lockstep P (n + 1) true T T (clause r) (clause r') (P.Same Recast.clause) :=
  .bind (.optPlain hr.keyword) fun _ _ hasync => .step hr.keyword fun _ _ _ =>
    .bind (targetList_lockstep hr) fun _ _ htarget => .bind hr.keyword fun _ _ _ =>
    .bind hr.expr fun _ _ hiter =>
    .bind (.many (.andThen hr.keyword fun _ _ _ => hr.expr)) fun _ _ hconditions =>
    .pure (by simp [hasync, htarget, hiter, hconditions])

theorem clauses_lockstep :
    Lockstep P (n + 1) true T T (clauses r) (clauses r') (P.Same fun m => List.map m.clause) :=
  .many1 (clause_lockstep hr)

theorem positionalArgument_lockstep :
    Lockstep P n true T T (positionalArgument r) (positionalArgument r')
      (P.Same Argument.recast) := by
  refine .node (.andThen hr.expr fun value value' hvalue =>
    .bind (.opt ((clauses_lockstep hr).mono (Nat.le_succ n))) fun found found' hfound =>
    .pure fun span span' hspan => ?_)
  cases found <;> cases found' <;> simp_all

theorem argument_lockstep :
    Lockstep P n true T T (argument r) (argument r') (P.Same Argument.recast) := by
  refine .orElse ?_ (.orElse ?_ (.orElse ?_ (positionalArgument_lockstep hr)))
  · exact .andThen hr.symbol fun _ _ _ => .bind hr.expr fun _ _ hvalue => .pure (by simp [hvalue])
  · exact .andThen (.spanOf hr.symbol) fun _ _ hstar => .bind hr.expr fun _ _ hvalue =>
      .pure (by simp [hstar, hvalue])
  · exact .andThen hr.name fun _ _ hname => .bind hr.symbol fun _ _ _ =>
      .bind hr.expr fun _ _ hvalue => .pure (by simp [hname, hvalue])

theorem arguments_lockstep : Lockstep P (n + 1) true T T (arguments r) (arguments r')
      (P.Same fun m => Prod.map (List.map m.expr) (List.map m.keyword)) := by
  refine .andThen (hr.bracketed (.sepEndBy (argument_lockstep hr) hr.symbol))
    fun args args' hargs => .pure ?_
  simp [(arguments_recast _ args).1, (arguments_recast _ args).2, (arguments_recast _ args').1,
    (arguments_recast _ args').2, hargs]

theorem typeHint_lockstep (annotated : Bool) :
    Lockstep P n false T T (typeHint r annotated) (typeHint r' annotated)
      (P.Same fun m => Option.map m.expr) := by
  unfold typeHint
  split
  · exact .opt (.andThen hr.symbol fun _ _ _ => hr.expr)
  · exact .pure rfl

theorem paramItem_lockstep (annotated : Bool) :
    Lockstep P n true T T (paramItem r annotated) (paramItem r' annotated)
      (P.Same ParamItem.recast) := by
  have hnamed : Lockstep P n true T T
      (do
        let id ← Parser.name
        let hint ← typeHint r annotated
        return (id, hint))
      (do
        let id ← Parser.name
        let hint ← typeHint r' annotated
        return (id, hint)) (P.Same fun m => Prod.map m.ident (Option.map m.expr)) :=
    .andThen hr.name fun _ _ hname => .bind (typeHint_lockstep hr annotated) fun _ _ hhint =>
      .pure (by simp [hname, hhint])
  refine .orElse ?_ (.orElse (.node ?_) (.orElse (.node ?_) (.node ?_)))
  · exact .andThen hr.symbol fun _ _ _ => .pure (by simp)
  · exact .andThen hr.symbol fun _ _ _ => .bind hr.name fun _ _ hname =>
      .bind (typeHint_lockstep hr annotated) fun _ _ hhint => .pure fun _ _ hspan => by
        simp [hname, hhint, hspan]
  · refine .andThen hr.symbol fun _ _ _ => .bind (.opt hnamed) fun found found' hfound =>
      .pure fun span span' hspan => ?_
    rcases found with _ | ⟨id, hint⟩ <;> rcases found' with _ | ⟨id', hint'⟩ <;> simp_all
  · exact .andThen hr.name fun _ _ hname => .bind (typeHint_lockstep hr annotated) fun _ _ hhint =>
      .bind (.opt (.andThen hr.symbol fun _ _ _ => hr.expr)) fun _ _ hdefault =>
      .pure fun _ _ hspan => by simp [hname, hhint, hdefault, hspan]

theorem params_lockstep (annotated : Bool) :
    Lockstep P n false T T (params r annotated) (params r' annotated)
      (P.Same fun m => List.map m.param) :=
  .bind (.sepEndBy (paramItem_lockstep hr annotated) hr.symbol) fun _ _ hitems =>
    .pure (by simp [resolveParams_recast, hitems])

/-! ### Atoms -/

theorem elementTail_lockstep :
    Lockstep P n false T T (elementTail r) (elementTail r') (P.Same ElementTail.recast) := by
  refine .orElse ?_ (.orElse ?_ (.pure rfl))
  · exact .bind ((clauses_lockstep hr).mono (Nat.le_succ n)) fun _ _ hclauses =>
      .pure (by simpa [ElementTail.recast] using hclauses)
  · exact .bind hr.symbol fun _ _ _ => .bind (.sepEndBy (starItem_lockstep hr) hr.symbol)
      fun _ _ hmore => .pure (by simpa [ElementTail.recast] using hmore)

omit hr

include hT

theorem nameAtom_lockstep :
    Lockstep P n true T T nameAtom nameAtom (P.Same Recast.expr) :=
  .node <| .andThen hT.name fun _ _ hname => .pure fun _ _ hspan => by simp [hname, hspan]

theorem constantAtom_lockstep :
    Lockstep P n true T T constantAtom constantAtom (P.Same Recast.expr) := by
  refine .node <| .andThen (hT.satisfy (fun token htoken => ?_) fun _ => rfl) fun _ _ hvalue =>
    .pure fun _ _ hspan => by simp [hvalue, hspan]
  cases token <;> first | rfl | simp [Token.isMark] at htoken

theorem stringAtom_lockstep :
    Lockstep P n true T T stringAtom stringAtom (P.Same Recast.expr) := by
  refine .node <| .andThen (.many1Plain (hT.satisfy (fun token htoken => ?_) fun _ => rfl))
    fun _ _ hparts => .pure fun _ _ hspan => by simp [hparts, hspan]
  cases token with
  | string text => simp [Token.isMark] at htoken
  | _ => rfl

include hr

omit hT

theorem parenElements_lockstep :
    Lockstep P n true T T (parenElements r) (parenElements r') (P.Same Recast.expr) := by
  refine .node <| .andThen (starItem_lockstep hr) fun first first' hfirst =>
    .bind (elementTail_lockstep hr) fun tail tail' htail => .pure fun span span' hspan => ?_
  cases tail <;> cases tail' <;> simp_all [ElementTail.recast]

theorem parenAtom_lockstep :
    Lockstep P (n + 1) true T T (parenAtom r) (parenAtom r') (P.Same Recast.expr) := by
  refine .node <| .andThen (R := P.Same fun m => Option.map m.expr) (hr.bracketed
    (.orElse ?_ (.orElse ?_ (.pure rfl)))) fun _ _ hinner => .pure fun _ _ hspan => ?_
  · exact .bind ((yieldExpr_lockstep hr).mono (Nat.le_succ n)) fun _ _ hinner =>
      .pure (by simp [hinner])
  · exact .bind (parenElements_lockstep hr) fun _ _ hinner => .pure (by simp [hinner])
  · simp [hinner, hspan]

theorem listAtom_lockstep :
    Lockstep P (n + 1) true T T (listAtom r) (listAtom r') (P.Same Recast.expr) := by
  refine .node <| .andThen (hr.bracketed (.opt (g := fun m => Prod.map m.expr
    (ElementTail.recast m)) (.bind (starItem_lockstep hr) fun _ _ hfirst =>
    .bind (elementTail_lockstep hr) fun _ _ htail => .pure (by simp [hfirst, htail]))))
    fun inner inner' hinner => .pure fun span span' hspan => ?_
  match inner, inner' with
  | none, none => simp [hspan]
  | none, some _ => simp at hinner
  | some _, none => simp at hinner
  | some (first, tail), some (first', tail') =>
    cases tail <;> cases tail' <;> simp_all [ElementTail.recast]

theorem spreadItem_lockstep :
    Lockstep P (n + 1) true T T (spreadItem r) (spreadItem r') (P.Same Recast.item) :=
  .step hr.symbol fun _ _ _ => .bind hr.operand fun _ _ hvalue => .pure (by simp [hvalue])

theorem keyedItem_lockstep :
    Lockstep P n true T T (keyedItem r) (keyedItem r') (P.Same fun m => Prod.map m.expr m.expr) :=
  .andThen hr.expr fun _ _ hkey => .bind hr.symbol fun _ _ _ => .bind hr.expr fun _ _ hvalue =>
    .pure (by simp [hkey, hvalue])

theorem moreItems_lockstep :
    Lockstep P n false T T (moreItems r) (moreItems r') (P.Same fun m => List.map m.item) := by
  refine .bind (.opt (g := fun m => List.map m.item) (.bind hr.symbol fun _ _ _ =>
    .sepEndBy (.orElse ((spreadItem_lockstep hr).mono (Nat.le_succ n)) ?_) hr.symbol))
    fun items items' hitems => .pure ?_
  · refine .andThen (keyedItem_lockstep hr) fun item item' hitem => .pure ?_
    simp_all [Prod.map]
  · cases items <;> cases items' <;> simp_all

theorem braceBody_lockstep :
    Lockstep P n false T T (braceBody r) (braceBody r') (P.Builds Recast.expr) := by
  refine .orElse ?_ (.orElse ?_ (.orElse ?_ ?_))
  · exact .bind ((spreadItem_lockstep hr).mono (Nat.le_succ n)) fun _ _ hfirst =>
      .bind (moreItems_lockstep hr) fun _ _ hrest => .pure fun _ _ hspan => by
        simp_all
  · refine .bind (keyedItem_lockstep hr) fun item item' hitem => .orElse ?_ ?_
    · exact .bind ((clauses_lockstep hr).mono (Nat.le_succ n)) fun _ _ hclauses =>
        .pure fun _ _ hspan => by simp_all [Prod.map]
    · exact .bind (moreItems_lockstep hr) fun _ _ hrest => .pure fun _ _ hspan => by
        simp_all [Prod.map]
  · refine .bind (starItem_lockstep hr) fun first first' hfirst =>
      .bind (elementTail_lockstep hr) fun tail tail' htail => .pure fun span span' hspan => ?_
    cases tail <;> cases tail' <;> simp_all [ElementTail.recast]
  · exact .pure fun _ _ hspan => by simp [hspan]

theorem braceAtom_lockstep :
    Lockstep P (n + 1) true T T (braceAtom r) (braceAtom r') (P.Same Recast.expr) :=
  .node (hr.bracketed (braceBody_lockstep hr))

theorem atom_lockstep : Lockstep P (n + 1) true T T (atom r) (atom r') (P.Same Recast.expr) :=
  .orElse (nameAtom_lockstep hr.toInline) <| .orElse (constantAtom_lockstep hr.toInline) <|
    .orElse (stringAtom_lockstep hr.toInline) <| .orElse (parenAtom_lockstep hr) <|
    .orElse (listAtom_lockstep hr) (braceAtom_lockstep hr)

/-! ### Primaries and operators -/

theorem sliceTail_lockstep : Lockstep P n true T T (sliceTail r) (sliceTail r')
      (P.Same fun m => Prod.map (Option.map m.expr) (Option.map m.expr)) := by
  refine .andThen hr.symbol fun _ _ _ => .bind (.opt hr.expr) fun upper upper' hupper =>
    .bind (.opt (.bind hr.symbol fun _ _ _ => .opt hr.expr)) fun step step' hstep => .pure ?_
  cases step <;> cases step' <;> simp_all

theorem subscriptItem_lockstep :
    Lockstep P n true T T (subscriptItem r) (subscriptItem r') (P.Same Recast.expr) := by
  refine .orElse (.node ?_) (.orElse (.node ?_)
    ((starredOperand_lockstep hr).mono (Nat.le_succ n)))
  · refine .andThen hr.expr fun lower lower' hlower => .bind (.opt (sliceTail_lockstep hr))
      fun tail tail' htail => .pure fun span span' hspan => ?_
    rcases tail with _ | ⟨upper, step⟩ <;> rcases tail' with _ | ⟨upper', step'⟩ <;> simp_all
  · refine .andThen (sliceTail_lockstep hr) fun bounds bounds' hbounds => .pure
      fun span span' hspan => ?_
    simp_all [Prod.map]

theorem trailer_lockstep : Lockstep P (n + 1) true T T (trailer r) (trailer r')
      (P.Same fun m => Prod.map (Trailer.recast m) (Span.respan m.offset)) := by
  refine .node <| .andThen (R := P.Same Trailer.recast) (.orElse ?_ (.orElse ?_ ?_))
    fun _ _ htrailer => .pure fun _ _ hspan => ?_
  · exact .andThen hr.symbol fun _ _ _ => .bind hr.name fun _ _ hname => .pure (by simp [hname])
  · refine .andThen (arguments_lockstep hr) fun args args' hargs => .pure ?_
    simp_all [Prod.map]
  · exact .andThen (hr.bracketed (exprList_lockstep hr.toInline (subscriptItem_lockstep hr)))
      fun _ _ hindex => .pure (by simp [hindex])
  · simp only [Pairing.Same, Prod.map_apply, htrailer, hspan]

theorem primary_lockstep :
    Lockstep P (n + 1) true T T (primary r) (primary r') (P.Same Recast.expr) :=
  .andThen (atom_lockstep hr) fun _ _ hvalue => .bind (.many (trailer_lockstep hr))
    fun _ _ htrailers => .pure (by
      simp [foldl_recast (withTrailer_recast _), hvalue, htrailers])

theorem awaitPrimary_lockstep :
    Lockstep P (n + 1) true T T (awaitPrimary r) (awaitPrimary r') (P.Same Recast.expr) := by
  refine .bind (.opt (.spanOf hr.keyword)) fun mark mark' hmark =>
    .andThen (primary_lockstep hr) fun value value' hvalue => .pure ?_
  cases mark <;> cases mark' <;> simp_all

theorem power_lockstep : Lockstep P (n + 1) true T T (power r) (power r') (P.Same Recast.expr) := by
  refine .andThen (awaitPrimary_lockstep hr) fun base base' hbase =>
    .bind (.opt (.step hr.symbol fun _ _ _ => hr.factor)) fun exponent exponent' hexponent =>
    .pure ?_
  cases exponent <;> cases exponent' <;> simp_all

theorem signed_lockstep :
    Lockstep P (n + 1) true T T (signed r) (signed r') (P.Same Recast.expr) := by
  refine .step (.node (g := fun m => Prod.map id (Span.respan m.offset)) (.andThen
    (hr.satisfy (fun token htoken => ?_) fun _ => rfl) fun _ _ hop => .pure fun _ _ hspan => by
      simp [hop, hspan])) fun found found' hfound => .bind hr.factor fun _ _ hoperand => .pure ?_
  · cases token <;> first | rfl | simp [Token.isMark] at htoken
  · simp_all [Prod.map]

omit hr

/-- Operators of one level keep pace on as many tokens as their operands do. -/
theorem binaryLevel_lockstep {operand operand' : Parser Expr} {op? : Token → Option BinOp}
    (h : Lockstep P n true T T operand operand' (P.Same Recast.expr))
    (hop : Lockstep P n true T T (Parser.satisfy op?) (Parser.satisfy op?) Eq) :
    Lockstep P n true T T (binaryLevel operand op?) (binaryLevel operand' op?)
      (P.Same Recast.expr) := by
  refine .andThen h fun left left' hleft => .bind (.many (g := fun m => Prod.map id m.expr)
    (.andThen hop fun _ _ hop => .bind h fun _ _ hright =>
      .pure (by simp [hop, hright]))) fun rest rest' hrest => .pure ?_
  have hfold (m : Recast) (e : Expr) (b : BinOp × Expr) : m.expr (binary e b.1 b.2)
      = binary (m.expr e) (Prod.map id m.expr b).1 (Prod.map id m.expr b).2 :=
    binary_recast m e b.1 b.2
  simp [foldl_recast (hfold _), hleft, hrest]

include hT

theorem bitOr_lockstep
    (h : Lockstep P n true T T r.factor r'.factor (P.Same Recast.expr)) :
    Lockstep P n true T T (bitOr r) (bitOr r') (P.Same Recast.expr) := by
  have hlevel {op? : Token → Option BinOp} {operand operand' : Parser Expr}
      (hmark : ∀ token, token.isMark = true → op? token = none)
      (hname : ∀ text, op? (.name text) = none)
      (h : Lockstep P n true T T operand operand' (P.Same Recast.expr)) :=
    binaryLevel_lockstep h (hT.satisfy hmark hname)
  refine hlevel ?_ (fun _ => rfl) <| hlevel ?_ (fun _ => rfl) <| hlevel ?_ (fun _ => rfl) <|
    hlevel ?_ (fun _ => rfl) <| hlevel ?_ (fun _ => rfl) <| hlevel ?_ (fun _ => rfl) h
  all_goals
    intro token htoken
    cases token <;> first | rfl | simp [Token.isMark] at htoken

/-! ### Comparisons and truth -/

theorem cmpOp_lockstep : Lockstep P n true T T cmpOp cmpOp Eq := by
  refine .orElse ?_ (.orElse ?_ (hT.satisfy (fun token htoken => ?_) fun _ => rfl))
  · exact .andThen hT.keyword fun _ _ _ => .bind hT.keyword fun _ _ _ => .pure rfl
  · exact .andThen hT.keyword fun _ _ _ => .bind hT.keyword fun _ _ _ => .pure rfl
  · cases token <;> first | rfl | simp [Token.isMark] at htoken

theorem comparison_lockstep
    (h : Lockstep P n true T T r.operand r'.operand (P.Same Recast.expr)) :
    Lockstep P n true T T (comparison r) (comparison r') (P.Same Recast.expr) :=
  .andThen h fun _ _ hleft => .bind (.many (g := fun m => Prod.map id m.expr)
    (.andThen (cmpOp_lockstep hT) fun _ _ hop => .bind h fun _ _ hright =>
      .pure (by simp [hop, hright]))) fun _ _ hrest => .pure (by simp [hleft, hrest])

theorem notTest_lockstep
    (h : Lockstep P n true T T r.operand r'.operand (P.Same Recast.expr)) :
    Lockstep P n true T T (notTest r) (notTest r') (P.Same Recast.expr) :=
  .bind (.many (.spanOf hT.keyword)) fun _ _ hmarks => .andThen (comparison_lockstep hT h)
    fun _ _ hoperand => .pure (by simp [foldr_not_recast, hmarks, hoperand])

/-- A chain of operands with one keyword between them. -/
theorem chained_lockstep {operand operand' : Parser Expr}
    (h : Lockstep P n true T T operand operand' (P.Same Recast.expr)) (kw : Keyword) (op : BoolOp) :
    Lockstep P n true T T
      (do
        let left ← operand
        let rest ← Parser.many (do Parser.keyword kw; operand)
        return rest.foldl (chain op) left)
      (do
        let left ← operand'
        let rest ← Parser.many (do Parser.keyword kw; operand')
        return rest.foldl (chain op) left) (P.Same Recast.expr) :=
  .andThen h fun _ _ hleft => .bind (.many (.andThen hT.keyword fun _ _ _ => h)) fun _ _ hrest =>
    .pure (by simp [foldl_recast (chain_recast _ op), hleft, hrest])

theorem orTest_lockstep
    (h : Lockstep P n true T T r.operand r'.operand (P.Same Recast.expr)) :
    Lockstep P n true T T (orTest r) (orTest r') (P.Same Recast.expr) :=
  chained_lockstep hT (chained_lockstep hT (notTest_lockstep hT h) .and_ .and) .or_ .or

theorem conditional_lockstep
    (hoperand : Lockstep P (n + 1) true T T r.operand r'.operand (P.Same Recast.expr))
    (hexpr : Lockstep P n true T T r.expr r'.expr (P.Same Recast.expr)) :
    Lockstep P (n + 1) true T T (conditional r) (conditional r') (P.Same Recast.expr) := by
  have horTest := orTest_lockstep hT hoperand
  refine .andThen horTest fun body body' hbody => .bind (.opt
    (g := fun m => Prod.map m.expr m.expr) (.step hT.keyword fun _ _ _ =>
      .bind (horTest.mono (Nat.le_succ n)) fun _ _ htest => .bind hT.keyword fun _ _ _ =>
      .bind hexpr fun _ _ horElse => .pure (by simp [htest, horElse])))
    fun tail tail' htail => .pure ?_
  rcases tail with _ | ⟨test, orElse⟩ <;> rcases tail' with _ | ⟨test', orElse'⟩ <;> simp_all

include hr

omit hT

theorem lambda_lockstep : Lockstep P (n + 1) true T T (lambda r) (lambda r') (P.Same Recast.expr) :=
  .node <| .step hr.keyword fun _ _ _ => .bind (params_lockstep hr false) fun _ _ hparams =>
    .bind hr.symbol fun _ _ _ => .bind hr.expr fun _ _ hbody => .pure fun _ _ hspan => by
      simp [hparams, hbody, hspan]

theorem namedExpr_lockstep :
    Lockstep P (n + 1) true T T (namedExpr r) (namedExpr r') (P.Same Recast.expr) :=
  .node <| .step (nameAtom_lockstep hr.toInline) fun _ _ htarget => .bind hr.symbol fun _ _ _ =>
    .bind hr.expr fun _ _ hvalue => .pure fun _ _ hspan => by simp [htarget, hvalue, hspan]

/-! ### The rules, unrolled -/

theorem unroll_factor :
    Lockstep P (n + 1) true T T (unroll r).factor (unroll r').factor (P.Same Recast.expr) :=
  .orElse (signed_lockstep hr) (power_lockstep hr)

theorem unroll_expr
    (hoperand : Lockstep P (n + 1) true T T r.operand r'.operand (P.Same Recast.expr)) :
    Lockstep P (n + 1) true T T (unroll r).expr (unroll r').expr (P.Same Recast.expr) :=
  .orElse (namedExpr_lockstep hr) <| .orElse (lambda_lockstep hr) <|
    conditional_lockstep hr.toInline hoperand hr.expr

/-- One more turn loses nothing. -/
theorem unroll_paired : (unroll r).Paired P T n (unroll r') where
  toInline := hr.toInline
  expr := by
    cases n with
    | zero => exact .zero
    | succ n => exact unroll_expr (hr.mono (Nat.le_succ n)) hr.operand
  operand := bitOr_lockstep hr.toInline hr.factor
  factor := (unroll_factor hr).mono (Nat.le_succ n)

/-- Three turns are enough for one more token. -/
theorem unroll_three_paired :
    (unroll (unroll (unroll r))).Paired P T (n + 1) (unroll (unroll (unroll r'))) := by
  have hr₁ := unroll_paired hr
  have hr₂ := unroll_paired hr₁
  have hfactor₁ := unroll_factor hr
  have hfactor₂ := unroll_factor hr₁
  exact ⟨hr.toInline, unroll_expr hr₂ (bitOr_lockstep hr.toInline hfactor₁),
    bitOr_lockstep hr.toInline hfactor₂, unroll_factor hr₂⟩

end

end Grammar

theorem ExprRules.upTo_eq (k : Nat) : upTo k = Grammar.unroll^[k] (upTo 0) := by
  induction k with
  | zero => rfl
  | succ k ih => rw [Function.iterate_succ_apply', ← ih, ← upTo]

/-- Rules unrolled often enough for the tokens there are keep pace, whatever they were. -/
theorem ExprRules.iterate_paired {P : Pairing} {T : Linkage} (hT : T.Inline P) (n : Nat)
    (r r' : ExprRules) {k k' : Nat} (hk : 3 * n ≤ k) (hk' : 3 * n ≤ k') :
    (Grammar.unroll^[k] r).Paired P T n (Grammar.unroll^[k'] r') := by
  induction n generalizing k k' with
  | zero => exact ⟨hT, .zero, .zero, .zero⟩
  | succ n ih =>
    obtain ⟨k, rfl⟩ : ∃ m, k = m + 3 := ⟨k - 3, by omega⟩
    obtain ⟨k', rfl⟩ : ∃ m, k' = m + 3 := ⟨k' - 3, by omega⟩
    simp only [Function.iterate_succ_apply']
    exact Grammar.unroll_three_paired (ih (by omega) (by omega))

theorem ExprRules.upTo_paired {P : Pairing} {T : Linkage} (hT : T.Inline P) (n : Nat)
    {k k' : Nat} (hk : 3 * n ≤ k) (hk' : 3 * n ≤ k') : (upTo k).Paired P T n (upTo k') := by
  rw [upTo_eq k, upTo_eq k']
  exact iterate_paired hT n _ _ hk hk'

end Scrutiny
