/-
Expressions have the shape of ones that were written.

Each rule of the grammar of expressions gives a tree that is well formed and may stand
anywhere (`Expr.Sound`).  Only what stands in the brackets of a subscript may hold a slice,
and it goes no further than into that subscript.

The three rules refer to each other, so they are assumed for the rules below
(`ExprRules.Sound`) and shown for each turn of the unrolling (`ExprRules.upTo_sound`).
-/
import Scrutiny.Grammar.Expr
import Scrutiny.Proofs.Grammar.Yields
import Scrutiny.Proofs.Syntax.Shape

namespace Scrutiny

/-- The three rules give expressions that are well formed and may stand anywhere. -/
structure ExprRules.Sound (s : List Lexeme) (r : ExprRules) : Prop where
  expr : Parser.Yields s r.expr Expr.Sound
  operand : Parser.Yields s r.operand Expr.Sound
  factor : Parser.Yields s r.factor Expr.Sound

/-- The clauses of a comprehension are sound, and there are some. -/
structure ClausesSound (clauses : List Comprehension) : Prop where
  nonempty : clauses ≠ []
  exprs : ∀ e clause, clause ∈ clauses → e ∈ clause.exprs → e.Sound

/-- A parameter is sound, and has no hint unless it may be annotated. -/
structure Param.Sound (annotated : Bool) (p : Param) : Prop where
  node : (Node.param p).Sound
  hint : annotated = false → p.hint = none

/-- A parameter that takes one argument stays sound with another kind of this sort. -/
theorem Param.Sound.withKind {annotated : Bool} {p : Param} (h : p.Sound annotated)
    {kind : ParamKind} (hvar : kind ≠ .varArgs) (hkw : kind ≠ .kwArgs) :
    Param.Sound annotated { p with kind } := by
  refine ⟨.of_children ?_ ?_ rfl, h.hint⟩
  · rintro (hkind | hkind)
    · exact absurd hkind hvar
    · exact absurd hkind hkw
  · exact h.node.children (by simp)

/-- Resolving the kinds of parameters keeps them sound. -/
theorem assignKinds_sound {annotated : Bool} {items : List ParamItem}
    (h : ∀ p, .param p ∈ items → p.Sound annotated) (slashAhead afterStar : Bool) :
    ∀ p ∈ assignKinds slashAhead afterStar items, p.Sound annotated := by
  fun_induction assignKinds slashAhead afterStar items with
  | case1 => simp
  | case2 slashAhead afterStar items ih | case3 slashAhead afterStar items ih =>
    exact ih fun p hp => h p (by simp [hp])
  | case4 slashAhead afterStar q items hkind ih | case5 slashAhead afterStar q items hkind ih =>
    intro p hp
    rcases List.mem_cons.mp hp with rfl | hp
    · exact h p (by simp)
    · exact ih (fun p hp => h p (by simp [hp])) p hp
  | case6 slashAhead afterStar q items hvar hkw kind ih =>
    intro p hp
    rcases List.mem_cons.mp hp with rfl | hp
    · refine (h q (by simp)).withKind ?_ ?_
      all_goals
        show (if slashAhead then _ else if afterStar then _ else q.kind) ≠ _
        split
        · simp
        · split
          · simp
          · assumption
    · exact ih (fun p hp => h p (by simp [hp])) p hp

namespace Grammar

open Scrutiny.Parser (Yields)

/-- An argument of a call is sound. -/
def Argument.Sound : Argument → Prop
  | .positional value => value.Sound
  | .keyword argument => argument.value.Sound

/-- What follows the first element of a display is sound. -/
def ElementTail.Sound : ElementTail → Prop
  | .clauses generators => ClausesSound generators
  | .more elements => ∀ e ∈ elements, e.Sound
  | .nothing => True

/-- An item of a subscript: anything that may stand somewhere, but no tuple with a slice in it. -/
structure ItemSound (e : Expr) : Prop where
  made : (Node.expr e).Made
  notIndex : e.isSlice = false → e.isIndex = false

/-- What follows a primary is sound. -/
def Trailer.Sound : Trailer → Prop
  | .member _ => True
  | .call args keywords => (∀ e ∈ args, e.Sound) ∧ ∀ k ∈ keywords, k.value.Sound
  | .index item => (Node.expr item).Made

/-! ### Building nodes -/

theorem binary_sound {left right : Expr} {op : BinOp} (hleft : left.Sound) (hright : right.Sound) :
    (binary left op right).Sound :=
  .of_children trivial (by simpa [Node.children, Expr.children, binary] using ⟨hleft, hright⟩) rfl

/-- A chain of one operator is flat at its head. -/
theorem chain_sound {op : BoolOp} {left right : Expr} (hleft : left.Sound) (hright : right.Sound) :
    (chain op left right).Sound := by
  have hpair (hhead : ∀ span inner, left ≠ .boolOp span op inner) (span : Span) :
      (Expr.boolOp span op [left, right]).Sound := by
    refine .of_children ⟨Nat.le_refl 2, by simpa using hhead⟩ ?_ rfl
    simpa [Node.children, Expr.children] using ⟨hleft, hright⟩
  unfold chain
  cases left with
  | boolOp span leftOp values =>
    by_cases heq : leftOp = op
    · -- The values before the last are those of a chain, whose head is right already.
      subst heq
      obtain ⟨hlength, hhead⟩ := (hleft.wellFormed _ .self).form
      have hvalues : ∀ e ∈ values, e.Sound := allSound_map.mp (hleft.children (by simp))
      simp only [if_pos]
      refine .of_children ⟨?_, ?_⟩ ?_ rfl
      · rw [List.length_append]
        exact Nat.le_add_right_of_le hlength
      · intro span inner
        rw [List.head?_append_of_ne_nil _ (List.ne_nil_of_length_pos (by omega))]
        exact hhead span inner
      · simpa [Node.children, Expr.children, or_imp, forall_and] using ⟨hvalues, hright⟩
    · simp only [if_neg heq]
      exact hpair (by simpa using fun h => absurd h heq) _
  | _ => exact hpair (by simp) _

theorem comparisonOf_sound {left : Expr} {rest : List (CmpOp × Expr)} (hleft : left.Sound)
    (hrest : ∀ item ∈ rest, item.2.Sound) : (comparisonOf left rest).Sound := by
  unfold comparisonOf
  split
  · exact hleft
  · rename_i op last hlast
    refine .of_children ⟨by simp, ?_⟩ ?_ rfl
    · rintro hnil
      simp [List.map_eq_nil_iff.mp hnil] at hlast
    · simpa [Node.children, Expr.children] using ⟨hleft, fun op e he => hrest (op, e) he⟩

theorem parenthesized_sound {inner : Option Expr} (h : ∀ e ∈ inner, e.Sound) (span : Span) :
    (parenthesized inner span).Sound := by
  unfold parenthesized
  split
  · exact Expr.sound_tuple (by simp)
  · rename_i elts
    exact Expr.sound_tuple (allSound_map.mp ((h _ rfl).children (by simp)))
  · rename_i elt generators
    have hgenerator := h _ rfl
    exact .of_children (hgenerator.wellFormed _ .self).form (hgenerator.children (by simp)) rfl
  · exact h _ rfl

theorem withTrailer_sound {value : Expr} {trailer : Trailer × Span} (hvalue : value.Sound)
    (htrailer : trailer.1.Sound) : (withTrailer value trailer).Sound := by
  obtain ⟨trailer, span⟩ := trailer
  cases trailer with
  | member attr =>
    refine .of_children trivial ?_ rfl
    simpa [Node.children, Expr.children, withTrailer] using hvalue
  | call args keywords =>
    refine .of_children trivial ?_ rfl
    simpa [Node.children, Expr.children, withTrailer] using ⟨hvalue, htrailer⟩
  | index item => exact Expr.sound_subscript hvalue htrailer

section

variable {s : List Lexeme} {r : ExprRules} (hr : r.Sound s)

include hr

/-! ### Lists of expressions -/

theorem starredOperand_sound : Yields s (starredOperand r) Expr.Sound :=
  .skip (.spanOf .symbol) fun _ => .bind hr.operand fun value hvalue => .pure <|
    .of_children trivial (by simpa [Node.children, Expr.children] using hvalue) rfl

theorem starItem_sound : Yields s (starItem r) Expr.Sound :=
  .orElse (starredOperand_sound hr) hr.expr

omit hr in
theorem exprList_sound {item : Parser Expr} (hitem : Yields s item Expr.Sound) :
    Yields s (exprList item) Expr.Sound := by
  refine .node (.bind (.sepBy1 hitem .symbol) fun items hitems =>
    .skip (.optSkip .symbol) fun trailing => .pure fun span => ?_)
  unfold tupleUnlessSingle
  split
  · exact hitems.2 _ (by simp)
  · exact Expr.sound_tuple hitems.2

theorem targetList_sound : Yields s (targetList r) Expr.Sound :=
  exprList_sound (.orElse (starredOperand_sound hr) hr.operand)

theorem yieldExpr_sound : Yields s (yieldExpr r) Expr.Sound := by
  refine .node (.skip .keyword fun _ => .orElse ?_ ?_)
  · refine .skip .keyword fun _ => .bind hr.expr fun value hvalue => .pure fun span => ?_
    exact .of_children trivial (by simpa [Node.children, Expr.children] using hvalue) rfl
  · refine .bind (.opt (exprList_sound (starItem_sound hr))) fun value hvalue =>
      .pure fun span => ?_
    exact .of_children trivial (by simpa [Node.children, Expr.children] using hvalue) rfl

/-! ### Comprehensions, arguments and parameters -/

theorem clause_sound : Yields s (clause r) fun clause => ∀ e ∈ clause.exprs, e.Sound := by
  refine .skip (.optSkip .keyword) fun _ => .skip .keyword fun _ =>
    .bind (targetList_sound hr) fun target htarget => .skip .keyword fun _ =>
    .bind hr.expr fun iter hiter => .bind (.many (.skip .keyword fun _ => hr.expr))
    fun conditions hconditions => .pure ?_
  simpa [Comprehension.exprs] using ⟨htarget, hiter, hconditions⟩

theorem clauses_sound : Yields s (clauses r) ClausesSound :=
  (Yields.many1 (clause_sound hr)).imp fun _ h =>
    ⟨h.1, fun e clause hclause => h.2 clause hclause e⟩

theorem positionalArgument_sound : Yields s (positionalArgument r) Argument.Sound := by
  refine .node (.bind hr.expr fun value hvalue => .bind (.opt (clauses_sound hr))
    fun generators hgenerators => .pure fun span => ?_)
  cases generators with
  | none => exact hvalue
  | some generators =>
    have hclauses := hgenerators generators rfl
    refine Node.Sound.of_children hclauses.nonempty ?_ rfl
    simpa [Node.children, Expr.children] using ⟨hvalue, hclauses.exprs⟩

theorem argument_sound : Yields s (argument r) Argument.Sound := by
  refine .orElse ?_ (.orElse ?_ (.orElse ?_ (positionalArgument_sound hr)))
  · exact .skip .symbol fun _ => .bind hr.expr fun value hvalue => .pure hvalue
  · refine .skip (.spanOf .symbol) fun _ => .bind hr.expr fun value hvalue => .pure ?_
    exact Node.Sound.of_children trivial (by simpa [Node.children, Expr.children] using hvalue) rfl
  · exact .skip .any fun _ => .skip .symbol fun _ => .bind hr.expr fun value hvalue => .pure hvalue

theorem arguments_sound : Yields s (arguments r) fun found =>
    (∀ e ∈ found.1, e.Sound) ∧ ∀ k ∈ found.2, k.value.Sound := by
  refine .bind (.bracketed (.sepEndBy (argument_sound hr) .symbol)) fun args hargs => .pure ⟨?_, ?_⟩
  · intro e he
    obtain ⟨arg, harg, hsome⟩ := List.mem_filterMap.mp he
    cases arg with
    | positional value => exact Option.some.inj hsome ▸ hargs _ harg
    | keyword argument => cases hsome
  · intro k hk
    obtain ⟨arg, harg, hsome⟩ := List.mem_filterMap.mp hk
    cases arg with
    | positional value => cases hsome
    | keyword argument => exact Option.some.inj hsome ▸ hargs _ harg

theorem typeHint_sound (annotated : Bool) : Yields s (typeHint r annotated) fun hint =>
    (∀ e ∈ hint, e.Sound) ∧ (annotated = false → hint = none) := by
  unfold typeHint
  split
  · rename_i hannotated
    refine (Yields.opt (.skip .symbol fun _ => hr.expr)).imp fun hint hhint => ⟨hhint, ?_⟩
    simp [hannotated]
  · exact .pure ⟨by simp, fun _ => rfl⟩

theorem paramItem_sound (annotated : Bool) : Yields s (paramItem r annotated) fun item =>
    ∀ p, item = .param p → p.Sound annotated := by
  refine .orElse ?_ (.orElse ?_ (.orElse ?_ ?_))
  · exact .skip .symbol fun _ => .pure (by simp)
  · refine .node (.skip .symbol fun _ => .skip .any fun id =>
      .bind (typeHint_sound hr annotated) fun hint hhint => .pure fun span => ?_)
    rintro p ⟨⟩
    refine ⟨.of_children (fun _ => rfl) ?_ rfl, hhint.2⟩
    simpa [Node.children] using hhint.1
  · refine .node (.skip .symbol fun _ => .bind (Q := fun found => ∀ e ∈ found,
      (∀ h ∈ e.2, h.Sound) ∧ (annotated = false → e.2 = none)) ?_ fun found hfound =>
      .pure fun span => ?_)
    · exact .opt (.skip .any fun id => .bind (typeHint_sound hr annotated) fun hint hhint =>
        .pure hhint)
    cases found with
    | none => simp
    | some found =>
      rintro p ⟨⟩
      have hhint := hfound found rfl
      refine ⟨.of_children (fun _ => rfl) ?_ rfl, hhint.2⟩
      simpa [Node.children] using hhint.1
  · refine .node (.skip .any fun id => .bind (typeHint_sound hr annotated) fun hint hhint =>
      .bind (.opt (.skip .symbol fun _ => hr.expr)) fun default hdefault => .pure fun span => ?_)
    rintro p ⟨⟩
    refine ⟨.of_children (by simp [Node.Form, Param.Form]) ?_ rfl, hhint.2⟩
    simpa [Node.children] using ⟨hhint.1, hdefault⟩

theorem params_sound (annotated : Bool) : Yields s (params r annotated) fun params =>
    ∀ p ∈ params, p.Sound annotated :=
  .bind (.sepEndBy (paramItem_sound hr annotated) .symbol) fun _ hitems =>
    .pure (assignKinds_sound (fun p hp => hitems _ hp p rfl) _ _)

/-! ### Atoms -/

theorem elementTail_sound : Yields s (elementTail r) ElementTail.Sound := by
  refine .orElse ?_ (.orElse ?_ (.pure trivial))
  · exact .bind (clauses_sound hr) fun _ hclauses => .pure hclauses
  · exact .skip .symbol fun _ => .bind (.sepEndBy (starItem_sound hr) .symbol)
      fun _ helements => .pure helements

omit hr in
theorem nameAtom_sound : Yields s nameAtom Expr.Sound :=
  .node (.skip .any fun _ => .pure fun _ => Expr.sound_leaf trivial rfl trivial rfl)

omit hr in
theorem constantAtom_sound : Yields s constantAtom Expr.Sound :=
  .node (.skip .any fun _ => .pure fun _ => Expr.sound_leaf trivial rfl trivial rfl)

omit hr in
theorem stringAtom_sound : Yields s stringAtom Expr.Sound := by
  refine .node (.bind (.many1 .any) fun parts hparts => .pure fun span => ?_)
  exact Expr.sound_leaf hparts.1 rfl rfl rfl

theorem parenElements_sound : Yields s (parenElements r) Expr.Sound := by
  refine .node (.bind (starItem_sound hr) fun first hfirst =>
    .bind (elementTail_sound hr) fun tail htail => .pure fun span => ?_)
  cases tail with
  | clauses generators =>
    refine .of_children htail.nonempty ?_ rfl
    simpa [Node.children, Expr.children] using ⟨hfirst, htail.exprs⟩
  | more rest => exact Expr.sound_tuple (by simpa using ⟨hfirst, htail⟩)
  | nothing => exact hfirst

theorem parenAtom_sound : Yields s (parenAtom r) Expr.Sound := by
  refine .node (.bind (Q := fun inner => ∀ e ∈ inner, e.Sound) (.bracketed ?_)
    fun _ hinner => .pure (parenthesized_sound hinner))
  refine .orElse ?_ (.orElse ?_ (.pure (by simp)))
  · exact .bind (yieldExpr_sound hr) fun _ he => .pure (by simpa using he)
  · exact .bind (parenElements_sound hr) fun _ he => .pure (by simpa using he)

theorem listAtom_sound : Yields s (listAtom r) Expr.Sound := by
  refine .node (.bind (Q := fun inner => ∀ found ∈ inner, found.1.Sound ∧ found.2.Sound)
    (.bracketed (.opt ?_)) fun inner hinner => .pure fun span => ?_)
  · exact .bind (starItem_sound hr) fun _ hfirst =>
      .bind (elementTail_sound hr) fun _ htail => .pure ⟨hfirst, htail⟩
  cases inner with
  | none => exact .of_children trivial (by simp [Node.children, Expr.children]) rfl
  | some found =>
    obtain ⟨first, tail⟩ := found
    obtain ⟨hfirst, htail⟩ := hinner _ rfl
    cases tail with
    | clauses generators =>
      refine .of_children htail.nonempty ?_ rfl
      simpa [Node.children, Expr.children] using ⟨hfirst, htail.exprs⟩
    | more rest =>
      refine .of_children trivial ?_ rfl
      simpa [Node.children, Expr.children] using ⟨hfirst, htail⟩
    | nothing =>
      exact .of_children trivial (by simpa [Node.children, Expr.children] using hfirst) rfl

theorem spreadItem_sound : Yields s (spreadItem r) fun item => ∀ e ∈ item.exprs, e.Sound :=
  .skip .symbol fun _ => .bind hr.operand fun _ hvalue =>
    .pure (by simpa [DictItem.exprs] using hvalue)

theorem keyedItem_sound : Yields s (keyedItem r) fun found => found.1.Sound ∧ found.2.Sound :=
  .bind hr.expr fun _ hkey => .skip .symbol fun _ => .bind hr.expr fun _ hvalue =>
    .pure ⟨hkey, hvalue⟩

theorem moreItems_sound : Yields s (moreItems r) fun items =>
    ∀ item ∈ items, ∀ e ∈ item.exprs, e.Sound := by
  refine .bind (.opt (.skip .symbol fun _ => .sepEndBy (.orElse (spreadItem_sound hr)
    (.bind (keyedItem_sound hr) fun found hfound => .pure ?_)) .symbol))
    fun items hitems => .pure ?_
  · simpa [DictItem.exprs] using hfound
  · cases items with
    | none => simp
    | some items => exact hitems items rfl

omit hr in
/-- A dictionary is sound if its items are. -/
theorem dict_sound {items : List DictItem} (h : ∀ item ∈ items, ∀ e ∈ item.exprs, e.Sound)
    (span : Span) : (Expr.dict span items).Sound := by
  refine .of_children trivial ?_ rfl
  simpa [Node.children, Expr.children] using fun e item hitem => h item hitem e

theorem braceBody_sound : Yields s (braceBody r) fun build => ∀ span, (build span).Sound := by
  refine .orElse ?_ (.orElse ?_ (.orElse ?_ (.pure (dict_sound (by simp)))))
  · refine .bind (spreadItem_sound hr) fun first hfirst => .bind (moreItems_sound hr)
      fun rest hrest => .pure (dict_sound ?_)
    simpa using ⟨hfirst, hrest⟩
  · refine .bind (keyedItem_sound hr) fun found hfound => .orElse ?_ ?_
    · refine .bind (clauses_sound hr) fun generators hgenerators => .pure fun span => ?_
      refine .of_children hgenerators.nonempty ?_ rfl
      simpa [Node.children, Expr.children] using ⟨hfound.1, hfound.2, hgenerators.exprs⟩
    · refine .bind (moreItems_sound hr) fun rest hrest => .pure (dict_sound ?_)
      have hfirst : ∀ e ∈ (⟨some found.1, found.2⟩ : DictItem).exprs, e.Sound := by
        simpa [DictItem.exprs] using hfound
      simpa only [List.forall_mem_cons] using ⟨hfirst, hrest⟩
  · refine .bind (starItem_sound hr) fun first hfirst => .bind (elementTail_sound hr)
      fun tail htail => .pure fun span => ?_
    cases tail with
    | clauses generators =>
      refine .of_children htail.nonempty ?_ rfl
      simpa [Node.children, Expr.children] using ⟨hfirst, htail.exprs⟩
    | more rest =>
      refine .of_children (List.cons_ne_nil _ _) ?_ rfl
      simpa [Node.children, Expr.children] using ⟨hfirst, htail⟩
    | nothing =>
      refine .of_children (List.cons_ne_nil _ _) ?_ rfl
      simpa [Node.children, Expr.children] using hfirst

theorem atom_sound : Yields s (atom r) Expr.Sound :=
  .orElse nameAtom_sound <| .orElse constantAtom_sound <| .orElse stringAtom_sound <|
    .orElse (parenAtom_sound hr) <| .orElse (listAtom_sound hr) <|
    .node (.bracketed (braceBody_sound hr))

/-! ### Subscripts and other trailers -/

theorem sliceTail_sound : Yields s (sliceTail r) fun found =>
    (∀ e ∈ found.1, e.Sound) ∧ ∀ e ∈ found.2, e.Sound := by
  refine .skip .symbol fun _ => .bind (.opt hr.expr) fun upper hupper =>
    .bind (.opt (.skip .symbol fun _ => .opt hr.expr)) fun step hstep => .pure ⟨hupper, ?_⟩
  cases step with
  | none => simp
  | some step => exact hstep step rfl

omit hr in
theorem slice_item {lower upper step : Option Expr} (hlower : ∀ e ∈ lower, e.Sound)
    (hupper : ∀ e ∈ upper, e.Sound) (hstep : ∀ e ∈ step, e.Sound) (span : Span) :
    ItemSound (.slice span lower upper step) := by
  refine ⟨Node.made_of_sound trivial trivial ?_, by simp [Expr.isSlice]⟩
  have hparts : AllSound (Expr.slice span lower upper step).children := by
    simpa [Expr.children] using ⟨hlower, hupper, hstep⟩
  exact hparts

omit hr in
theorem Expr.Sound.item {e : Expr} (h : e.Sound) : ItemSound e :=
  ⟨h.toMade, fun _ => h.notIndex⟩

theorem subscriptItem_item : Yields s (subscriptItem r) ItemSound := by
  refine .orElse ?_ (.orElse ?_ ((starredOperand_sound hr).imp fun _ => Expr.Sound.item))
  · refine .node (.bind hr.expr fun lower hlower => .bind (.opt (sliceTail_sound hr))
      fun tail htail => .pure fun span => ?_)
    cases tail with
    | none => exact Expr.Sound.item hlower
    | some tail =>
      obtain ⟨hupper, hstep⟩ := htail tail rfl
      exact slice_item (by simpa using hlower) hupper hstep span
  · exact .node (.bind (sliceTail_sound hr) fun tail htail =>
      .pure (slice_item (by simp) htail.1 htail.2))

/-- What stands in the brackets of a subscript may stand somewhere: as an index. -/
theorem index_made : Yields s (exprList (subscriptItem r)) fun e => (Node.expr e).Made := by
  refine .node (.bind (.sepBy1 (subscriptItem_item hr) .symbol) fun items hitems =>
    .skip (.optSkip .symbol) fun trailing => .pure fun span => ?_)
  unfold tupleUnlessSingle
  split
  · exact (hitems.2 _ (by simp)).made
  · refine .of_children ⟨trivial, fun e he => (hitems.2 e he).notIndex⟩ trivial ?_
    simpa [Node.children, Expr.children] using fun e he => (hitems.2 e he).made

theorem trailer_sound : Yields s (trailer r) fun found => found.1.Sound := by
  refine .node (.bind (Q := Trailer.Sound) ?_ fun _ htrailer => .pure fun _ => htrailer)
  refine .orElse ?_ (.orElse ?_ ?_)
  · exact .skip .symbol fun _ => .skip .any fun _ => .pure trivial
  · exact .bind (arguments_sound hr) fun _ hargs => .pure hargs
  · exact .bind (.bracketed (index_made hr)) fun _ hindex => .pure hindex

theorem primary_sound : Yields s (primary r) Expr.Sound := by
  refine .bind (atom_sound hr) fun value hvalue => .bind (.many (trailer_sound hr))
    fun trailers htrailers => .pure ?_
  induction trailers generalizing value with
  | nil => exact hvalue
  | cons trailer trailers ih =>
    exact ih _ (withTrailer_sound hvalue (htrailers trailer (by simp)))
      fun other hother => htrailers other (by simp [hother])

/-! ### Operators -/

theorem awaitPrimary_sound : Yields s (awaitPrimary r) Expr.Sound := by
  refine .skip (.optSkip (.spanOf .keyword)) fun mark => .bind (primary_sound hr)
    fun value hvalue => .pure ?_
  cases mark with
  | none => exact hvalue
  | some mark =>
    exact .of_children trivial (by simpa [Node.children, Expr.children] using hvalue) rfl

theorem power_sound : Yields s (power r) Expr.Sound := by
  refine .bind (awaitPrimary_sound hr) fun base hbase =>
    .bind (.opt (.skip .symbol fun _ => hr.factor)) fun exponent hexponent => .pure ?_
  cases exponent with
  | none => exact hbase
  | some exponent => exact binary_sound hbase (hexponent exponent rfl)

theorem signed_sound : Yields s (signed r) Expr.Sound := by
  refine .skip (.node (.skip .any fun _ => .pure fun _ => trivial)) fun _ =>
    .bind hr.factor fun operand hoperand => .pure ?_
  exact .of_children trivial (by simpa [Node.children, Expr.children] using hoperand) rfl

omit hr in
/-- What stands behind an operator, with the operator. -/
theorem operatorItem_sound {β : Type} {op : Parser β} {operand : Parser Expr}
    (hop : Yields s op fun _ => True) (hoperand : Yields s operand Expr.Sound) :
    Yields s (do let found ← op; let right ← operand; return (found, right))
      fun item => item.2.Sound :=
  .skip hop fun _ => .bind hoperand fun _ hright => .pure hright

omit hr in
theorem binaryLevel_sound {operand : Parser Expr} {op? : Token → Option BinOp}
    (hoperand : Yields s operand Expr.Sound) : Yields s (binaryLevel operand op?) Expr.Sound := by
  refine .bind hoperand fun left hleft => .bind (.many (operatorItem_sound .any hoperand))
    fun rest hrest => .pure ?_
  induction rest generalizing left with
  | nil => exact hleft
  | cons item rest ih =>
    exact ih _ (binary_sound hleft (hrest item (by simp)))
      fun other hother => hrest other (by simp [hother])

theorem bitOr_sound : Yields s (bitOr r) Expr.Sound :=
  binaryLevel_sound <| binaryLevel_sound <| binaryLevel_sound <| binaryLevel_sound <|
    binaryLevel_sound <| binaryLevel_sound hr.factor

omit hr in
theorem cmpOp_yields : Yields s cmpOp fun _ => True := by
  refine .orElse ?_ (.orElse ?_ .any)
  · exact .skip .keyword fun _ => .skip .keyword fun _ => .pure trivial
  · exact .skip .keyword fun _ => .skip .keyword fun _ => .pure trivial

theorem comparison_sound : Yields s (comparison r) Expr.Sound :=
  .bind hr.operand fun _ hleft => .bind (.many (operatorItem_sound cmpOp_yields hr.operand))
    fun _ hrest => .pure (comparisonOf_sound hleft hrest)

theorem notTest_sound : Yields s (notTest r) Expr.Sound := by
  refine .bind (.many (.spanOf .keyword)) fun marks _ => .bind (comparison_sound hr)
    fun operand hoperand => .pure ?_
  induction marks with
  | nil => exact hoperand
  | cons mark marks ih =>
    exact .of_children trivial (by simpa [Node.children, Expr.children] using ih (by simp)) rfl

omit hr in
theorem chain_foldl_sound {op : BoolOp} {rest : List Expr} {left : Expr} (hleft : left.Sound)
    (hrest : ∀ e ∈ rest, e.Sound) : (rest.foldl (chain op) left).Sound := by
  induction rest generalizing left with
  | nil => exact hleft
  | cons right rest ih =>
    exact ih (chain_sound hleft (hrest right (by simp))) fun e he => hrest e (by simp [he])

theorem andTest_sound : Yields s (andTest r) Expr.Sound :=
  .bind (notTest_sound hr) fun _ hleft => .bind (.many (.skip .keyword fun _ => notTest_sound hr))
    fun _ hrest => .pure (chain_foldl_sound hleft hrest)

theorem orTest_sound : Yields s (orTest r) Expr.Sound :=
  .bind (andTest_sound hr) fun _ hleft => .bind (.many (.skip .keyword fun _ => andTest_sound hr))
    fun _ hrest => .pure (chain_foldl_sound hleft hrest)

theorem conditional_sound : Yields s (conditional r) Expr.Sound := by
  refine .bind (orTest_sound hr) fun body hbody =>
    .bind (Q := fun tail => ∀ found ∈ tail, found.1.Sound ∧ found.2.Sound) (.opt ?_)
    fun tail htail => .pure ?_
  · exact .skip .keyword fun _ => .bind (orTest_sound hr) fun _ htest => .skip .keyword fun _ =>
      .bind hr.expr fun _ horElse => .pure ⟨htest, horElse⟩
  · cases tail with
    | none => exact hbody
    | some found =>
      obtain ⟨htest, horElse⟩ := htail found rfl
      refine .of_children trivial ?_ rfl
      simpa [Node.children, Expr.children] using ⟨htest, hbody, horElse⟩

theorem lambda_sound : Yields s (lambda r) Expr.Sound := by
  refine .node (.skip .keyword fun _ => .bind (params_sound hr false) fun params hparams =>
    .skip .symbol fun _ => .bind hr.expr fun body hbody => .pure fun span => ?_)
  refine .of_children (fun p hp => (hparams p hp).hint rfl) ?_ rfl
  simpa [Node.children, Expr.children] using ⟨fun p hp => (hparams p hp).node, hbody⟩

theorem namedExpr_sound : Yields s (namedExpr r) Expr.Sound := by
  refine .node (.bind nameAtom_sound fun target htarget => .skip .symbol fun _ =>
    .bind hr.expr fun value hvalue => .pure fun span => ?_)
  refine .of_children trivial ?_ rfl
  simpa [Node.children, Expr.children] using ⟨htarget, hvalue⟩

/-! ### The rules, unrolled -/

theorem unroll_sound : (unroll r).Sound s where
  expr := .orElse (namedExpr_sound hr) (.orElse (lambda_sound hr) (conditional_sound hr))
  operand := bitOr_sound hr
  factor := .orElse (signed_sound hr) (power_sound hr)

end

end Grammar

theorem ExprRules.upTo_sound (s : List Lexeme) (n : Nat) : (ExprRules.upTo n).Sound s := by
  induction n with
  | zero => exact ⟨.fail, .fail, .fail⟩
  | succ n ih => exact Grammar.unroll_sound ih

end Scrutiny
