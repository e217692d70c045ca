/-
Expressions stand where their spans say.

Each rule of the grammar of expressions lays the node it makes over what it reads
(`LaysExpr`).  A rule that puts a node around all that it read has its children among
what was gathered on the way.  The operators are different: their nodes reach from
the first operand to the last, wherever brackets around these were, so there the
operands are followed one by one.

The three rules refer to each other, so they are assumed for the rules below
(`ExprRules.Laid`) and shown for each turn of the unrolling.
-/
import Scrutiny.Grammar.Expr
import Scrutiny.Proofs.Grammar.Placement

namespace Scrutiny

variable {α : Type} {e left : Expr} {g : α → List Node} {hi lo : Nat} {p : Parser Expr}

/-- The children of a node that lies somewhere lie within it. -/
theorem Node.LiesIn.children {cs : List Char} {n : Node} (h : n.LiesIn cs lo hi) :
    Fits cs n.span.start n.span.stop n.children := by
  intro child hchild
  have hwithin := h.placed.children child hchild
  exact ⟨hwithin.start, hwithin.stop, fun m hm => h.below m (.child hchild hm)⟩

namespace Parser

/-- A parser lays an expression over what it reads. -/
def LaysExpr (t : Site) (p : Parser Expr) : Prop := Lays t 1 p fun e => [.expr e]

theorem LaysExpr.liesIn {t : Site} (h : LaysExpr t p) (lo : Nat) :
    Places t lo p fun hi e => (Node.expr e).LiesIn t.chars lo hi :=
  (h.places lo).imp fun _ _ _ he => (fits_cons.mp he.2).1

theorem LaysExpr.of_liesIn {t : Site}
    (h : ∀ lo, Places t lo p fun hi e => (Node.expr e).LiesIn t.chars lo hi) : LaysExpr t p := by
  refine .of_places fun lo => (h lo).imp fun hi e _ he => ⟨?_, fits_cons.mpr ⟨he, fits_nil⟩⟩
  have hstart := he.start
  have hlt := he.placed.nonempty
  have hstop := he.stop
  omega

end Parser

/-- The three rules lay their expressions over what they read. -/
structure ExprRules.Laid (t : Site) (r : ExprRules) : Prop where
  expr : Parser.LaysExpr t r.expr
  operand : Parser.LaysExpr t r.operand
  factor : Parser.LaysExpr t r.factor

namespace Parser.Gathers

variable {t : Site} {k : Nat} {ns : List Node}

/-- A result whose node is a new one around what was gathered. -/
theorem builtAs {build : Span → α} {n : Span → Node} (hk : 1 ≤ k)
    (hg : ∀ span, g (build span) = [n span]) (hspan : ∀ span, (n span).span = span)
    (htext : ∀ span, (n span).text? = none) (hinner : ∀ span, (n span).inner = [])
    (hchildren : ∀ span base hi, Fits t.chars base hi ns → Fits t.chars base hi (n span).children) :
    Gathers t k ns (Pure.pure build) (t.Built g) := by
  refine pure fun base hi hle hns => ⟨by omega, fun hsize => ?_⟩
  have hnew := hspan ⟨base, hi⟩
  rw [hg]
  refine fits_cons.mpr ⟨.of_children (by rw [hnew]) (by rw [hnew]) ?_ ?_ ?_ ?_ ?_ ?_, fits_nil⟩
  · rw [hnew]
    show base < hi
    omega
  · rw [hnew]
    exact hsize
  · rw [hnew]
    exact hchildren _ base hi hns
  · simp [htext]
  · rw [hinner]
    exact .nil
  · simp [hinner]

/-- A new expression around what was gathered. -/
theorem built {build : Span → Expr} (hk : 1 ≤ k) (hspan : ∀ span, (build span).span = span)
    (htext : ∀ span, (Node.expr (build span)).text? = none)
    (hchildren : ∀ span base hi, Fits t.chars base hi ns →
      Fits t.chars base hi (build span).children) :
    Gathers t k ns (Pure.pure build) (t.Built fun e => [.expr e]) :=
  builtAs hk (fun _ => rfl) hspan htext (fun _ => rfl) hchildren

/-- A result whose nodes were gathered, whatever the span. -/
theorem kept {build : Span → α} (hk : 1 ≤ k)
    (hbuild : ∀ span base hi, Fits t.chars base hi ns → Fits t.chars base hi (g (build span))) :
    Gathers t k ns (Pure.pure build) (t.Built g) :=
  pure fun base hi hle hns => ⟨by omega, fun _ => hbuild _ base hi hns⟩

end Parser.Gathers

/-- The parameter among the items of a parameter list. -/
def ParamItem.nodes : ParamItem → List Node
  | .slash | .star => []
  | .param p => [.param p]

namespace Grammar

open Scrutiny.Parser (Gathers Lays LaysExpr Places)

/-! ### Marks and operators -/

/-- A span that covers something between two offsets. -/
structure CoversIn (t : Site) (lo hi : Nat) (span : Span) : Prop where
  start : lo ≤ span.start
  nonempty : span.start < span.stop
  stop : span.stop ≤ hi
  inside : span.stop ≤ byteLength t.chars

section

variable {t : Site} {lo mid hi : Nat}

/-- A token that is no mark of the layout covers its span. -/
theorem single_covers {pick : Token → Option α}
    (hpick : ∀ token, token.isMark = true → pick token = none) :
    Places t lo (Parser.node (do let a ← Parser.satisfy pick; return (a, ·))) fun hi found =>
      CoversIn t lo hi found.2 := by
  refine .single fun lexeme hlexeme a ha hstart => ?_
  have hplain : lexeme.token.isMark = false := by
    cases hmark : lexeme.token.isMark with
    | false => rfl
    | true => simp [hpick _ hmark] at ha
  exact ⟨hstart, (t.written lexeme hlexeme hplain).1, Nat.le_refl _, (t.inside lexeme hlexeme).2⟩

theorem spanOf_covers {plain : Token} (hplain : plain.isMark = false) :
    Places t lo (Parser.spanOf (Parser.token plain)) fun hi span => CoversIn t lo hi span := by
  refine .single fun lexeme hlexeme a ha hstart => ?_
  obtain rfl : lexeme.token = plain := by
    by_contra hne
    simp [hne] at ha
  exact ⟨hstart, (t.written lexeme hlexeme hplain).1, Nat.le_refl _, (t.inside lexeme hlexeme).2⟩

/-- An expression with a mark before it: `*value`, `await value`, `not value`. -/
theorem marked_liesIn {mark : Span} {value : Expr} (hmark : CoversIn t lo mid mark)
    (hvalue : (Node.expr value).LiesIn t.chars mid hi) (hspan : e.span = .cover mark value.span)
    (htext : (Node.expr e).text? = none) (hchildren : e.children = [.expr value]) :
    (Node.expr e).LiesIn t.chars lo hi := by
  have hstart := hvalue.start
  have hstop := hvalue.stop
  have hnonempty := hvalue.placed.nonempty
  have hinside := hvalue.placed.inside
  have := hmark.start
  have := hmark.nonempty
  have := hmark.stop
  simp only [Node.span] at hstart hstop hnonempty hinside
  refine Expr.liesIn htext ?_ ?_ ?_ ?_ ?_
  all_goals simp only [hspan, Span.cover]
  · omega
  · omega
  · omega
  · omega
  · rw [hchildren, fits_cons]
    refine ⟨⟨?_, Nat.le_refl _, hvalue.below⟩, fits_nil⟩
    simp only [Node.span]
    omega

/-- An expression that reaches from one operand to another, with more between them. -/
theorem spanning_liesIn {first last : Expr} {between : List Node} {lo' : Nat}
    (hfirst : (Node.expr first).LiesIn t.chars lo mid) (hbetween : Fits t.chars mid lo' between)
    (hlast : (Node.expr last).LiesIn t.chars lo' hi) (hle : mid ≤ lo')
    (hspan : e.span = .cover first.span last.span) (htext : (Node.expr e).text? = none)
    (hchildren : ∀ n ∈ e.children,
      n = .expr first ∨ n ∈ (Node.expr first).children ∨ n ∈ between ∨ n = .expr last) :
    (Node.expr e).LiesIn t.chars lo hi := by
  have hfirst₁ := hfirst.start
  have hfirst₂ := hfirst.stop
  have hfirst₃ := hfirst.placed.nonempty
  have hlast₁ := hlast.start
  have hlast₂ := hlast.stop
  have hlast₃ := hlast.placed.nonempty
  have hinside := hlast.placed.inside
  simp only [Node.span] at hfirst₁ hfirst₂ hfirst₃ hlast₁ hlast₂ hlast₃ hinside
  refine Expr.liesIn htext ?_ ?_ ?_ ?_ fun n hn => ?_
  all_goals simp only [hspan, Span.cover]
  · exact hfirst₁
  · exact hlast₂
  · omega
  · exact hinside
  · rcases hchildren n hn with rfl | hn | hn | rfl
    · refine ⟨Nat.le_refl _, ?_, hfirst.below⟩
      simp only [Node.span]
      omega
    · refine (hfirst.children n hn).mono (Nat.le_refl _) ?_
      simp only [Node.span]
      omega
    · exact (hbetween n hn).mono (by omega) (by omega)
    · refine ⟨?_, Nat.le_refl _, hlast.below⟩
      simp only [Node.span]
      omega

theorem binary_liesIn {right : Expr} {op : BinOp} (hleft : (Node.expr left).LiesIn t.chars lo mid)
    (hright : (Node.expr right).LiesIn t.chars mid hi) :
    (Node.expr (binary left op right)).LiesIn t.chars lo hi :=
  spanning_liesIn hleft fits_nil hright (Nat.le_refl _) rfl rfl
    (by simp +contextual [binary, Expr.children])

theorem chain_liesIn {op : BoolOp} {right : Expr} (hleft : (Node.expr left).LiesIn t.chars lo mid)
    (hright : (Node.expr right).LiesIn t.chars mid hi) :
    (Node.expr (chain op left right)).LiesIn t.chars lo hi := by
  refine spanning_liesIn hleft fits_nil hright (Nat.le_refl _) ?_ ?_ ?_
  all_goals
    unfold chain
    split
    · split
      · simp +contextual [Expr.span, Node.text?, Node.children, Expr.children]
      · simp +contextual [Expr.span, Node.text?, Node.children, Expr.children]
    · simp +contextual [Expr.span, Node.text?, Expr.children]

/-- Folding parts onto an expression, from left to right. -/
theorem foldl_liesIn {β : Type} {P : Nat → Nat → β → Prop} {f : Expr → β → Expr}
    (hf : ∀ mid hi e b, (Node.expr e).LiesIn t.chars lo mid → P mid hi b →
      (Node.expr (f e b)).LiesIn t.chars lo hi) {bs : List β}
    (he : (Node.expr e).LiesIn t.chars lo mid) (hbs : Row P mid hi bs) :
    (Node.expr (bs.foldl f e)).LiesIn t.chars lo hi := by
  induction hbs generalizing e with
  | nil => exact he
  | cons _ hb _ ih => exact ih (hf _ _ e _ he hb)

theorem comparisonOf_liesIn {rest : List (CmpOp × Expr)}
    (hleft : (Node.expr left).LiesIn t.chars lo mid)
    (hrest : Row (t.Wide 1 fun found => [.expr found.2]) mid hi rest) :
    (Node.expr (comparisonOf left rest)).LiesIn t.chars lo hi := by
  unfold comparisonOf
  split
  · exact hleft.mono (Nat.le_refl _) hrest.le
  · rename_i op last hlast
    obtain ⟨front, rfl⟩ := List.getLast?_eq_some_iff.mp hlast
    obtain ⟨lo', hfront, hlast⟩ := Row.last hrest
    refine spanning_liesIn hleft hfront.fits (fits_cons.mp hlast.2).1 hfront.le rfl rfl ?_
    intro n hn
    simp only [Expr.children, List.map_append, List.map_cons, List.map_nil, List.mem_cons,
      List.mem_append, List.not_mem_nil, or_false] at hn
    rcases hn with rfl | hn | rfl
    · exact Or.inl rfl
    · obtain ⟨e, he, rfl⟩ := List.mem_map.mp hn
      obtain ⟨found, hfound, rfl⟩ := List.mem_map.mp he
      exact Or.inr (Or.inr (Or.inl (List.mem_flatMap.mpr ⟨found, hfound, by simp⟩)))
    · exact Or.inr (Or.inr (Or.inr rfl))

theorem notTest_liesIn {marks : List Span} {operand : Expr} (hmarks : Row (CoversIn t) lo mid marks)
    (hoperand : (Node.expr operand).LiesIn t.chars mid hi) :
    (Node.expr (marks.foldr (fun mark operand =>
      .unaryOp (.cover mark operand.span) .not operand) operand)).LiesIn t.chars lo hi := by
  induction hmarks with
  | nil => exact hoperand
  | cons _ hmark _ ih => exact marked_liesIn hmark (ih hoperand) rfl rfl rfl

end

section

variable {t : Site} {r : ExprRules}

/-! ### Lists of expressions -/

theorem starred_lays (hp : LaysExpr t p) (wrap : Expr → α)
    (hg : ∀ e, g (wrap e) = [.expr e]) :
    Lays t 1 (do
      let star ← Parser.spanOf (Parser.symbol .star)
      let value ← p
      return wrap (.starred (.cover star value.span) value)) g := by
  refine .of_places fun lo => .bind (spanOf_covers rfl) fun star mid hmid hstar => ?_
  refine .bind (hp.liesIn _) fun value hi hhi hvalue => .pure ⟨?_, ?_⟩
  · have := hstar.start
    have := hstar.nonempty
    have := hstar.stop
    omega
  · rw [hg, fits_cons]
    exact ⟨marked_liesIn hstar hvalue rfl rfl rfl, fits_nil⟩

variable (hr : r.Laid t)

include hr

theorem starredOperand_lays : LaysExpr t (starredOperand r) :=
  starred_lays hr.operand id fun _ => rfl

theorem starItem_lays : LaysExpr t (starItem r) :=
  Gathers.orElse (starredOperand_lays hr) hr.expr

omit hr in
theorem exprList_lays {item : Parser Expr} (hitem : LaysExpr t item) :
    LaysExpr t (exprList item) := by
  refine .node (.bind (.sepBy1 hitem .symbol) fun items => .bind (.opt .symbol) fun trailing => ?_)
  unfold tupleUnlessSingle
  split
  · exact .kept (by omega) (by simp)
  · exact .built (by omega) (fun _ => rfl) (fun _ => rfl) (by simp [Expr.children])

theorem targetList_lays : LaysExpr t (targetList r) :=
  exprList_lays (Gathers.orElse (starredOperand_lays hr) hr.operand)

theorem yieldExpr_lays : LaysExpr t (yieldExpr r) := by
  refine .node (.skip .keyword fun _ => .orElse ?_ ?_)
  · exact .skip .keyword fun _ => .bind hr.expr fun _ =>
      .built (by omega) (fun _ => rfl) (fun _ => rfl) (by simp [Expr.children])
  · exact .bind (.opt (exprList_lays (starItem_lays hr))) fun _ =>
      .built (by omega) (fun _ => rfl) (fun _ => rfl) (by simp [Expr.children])

/-! ### Comprehensions, arguments and parameters -/

theorem clause_lays : Lays t 1 (clause r) fun c => c.exprs.map .expr := by
  refine .skip (.optSkip .keyword) fun _ => .skip .keyword fun _ => ?_
  refine .bind (targetList_lays hr) fun target => .skip .keyword fun _ => ?_
  refine .bind hr.expr fun iter => ?_
  refine .bind (.many (Gathers.skip .keyword fun _ => .last hr.expr (Nat.le_refl _))) fun _ => ?_
  exact .wide (by omega) (by simp +contextual [Comprehension.exprs])

theorem clauses_lays : Lays t 1 (clauses r) fun cs => (cs.flatMap Comprehension.exprs).map .expr :=
  (Lays.many1 (clause_lays hr)).imp (Nat.le_refl _) (by simp [List.map_flatMap])

omit hr in
/-- The value of an argument. -/
def Argument.nodes : Argument → List Node
  | positional value => [.expr value]
  | keyword argument => [.expr argument.value]

theorem positionalArgument_lays : Lays t 1 (positionalArgument r) Argument.nodes := by
  refine .node (.bind hr.expr fun value => .bind (.opt (clauses_lays hr)) fun generators => ?_)
  cases generators with
  | none => exact .kept (by omega) (by simp [Argument.nodes])
  | some generators =>
    exact .builtAs (by omega) (fun _ => rfl) (fun _ => rfl) (fun _ => rfl) (fun _ => rfl)
      (by simp +contextual [Node.children, Expr.children])

theorem argument_lays : Lays t 1 (argument r) Argument.nodes := by
  refine .orElse ?_ (.orElse ?_ (.orElse ?_ (positionalArgument_lays hr)))
  · exact .skip .symbol fun _ => .bind hr.expr fun _ => .wide (by omega) (by simp [Argument.nodes])
  · exact starred_lays hr.expr Argument.positional fun _ => rfl
  · exact .skip .name fun _ => .skip .symbol fun _ => .bind hr.expr fun _ =>
      .wide (by omega) (by simp [Argument.nodes])

theorem arguments_lays :
    Lays t 1 (arguments r) fun args => args.1.map .expr ++ args.2.map (.expr ·.value) := by
  refine .bind (.bracketed (.sepEndBy (argument_lays hr) .symbol)) fun args => .wide (by omega) ?_
  intro base hi hns
  simp only [List.nil_append, fits_flatMap] at hns
  simp only [fits_append, fits_map, List.mem_filterMap]
  refine ⟨?_, ?_⟩
  · rintro value ⟨arg, harg, hvalue⟩
    cases arg with
    | positional found =>
      cases hvalue
      exact (fits_cons.mp (hns _ harg)).1
    | keyword found => simp [Argument.positional?] at hvalue
  · rintro argument ⟨arg, harg, hargument⟩
    cases arg with
    | positional found => simp [Argument.keyword?] at hargument
    | keyword found =>
      cases hargument
      exact (fits_cons.mp (hns _ harg)).1

theorem typeHint_lays (annotated : Bool) :
    Lays t 0 (typeHint r annotated) fun hint => hint.toList.map .expr := by
  unfold typeHint
  split
  · exact (Lays.opt (Gathers.skip .symbol fun _ => .last hr.expr (Nat.le_refl _))).imp
      (Nat.le_refl _) (by simp)
  · exact .wide (Nat.le_refl _) (by simp)

theorem paramItem_lays (annotated : Bool) : Lays t 1 (paramItem r annotated) ParamItem.nodes := by
  have hdefault : Lays t 0 (Parser.opt (do Parser.symbol .assign; r.expr)) fun value =>
      value.toList.map .expr :=
    (Lays.opt (Gathers.skip .symbol fun _ => .last hr.expr (Nat.le_refl _))).imp (Nat.le_refl _)
      (by simp)
  have hnamed : Lays t 1
      (do
        let id ← Parser.name
        let hint ← typeHint r annotated
        return (id, hint)) fun found => found.2.toList.map .expr :=
    Gathers.skip .name fun _ => .bind (typeHint_lays hr annotated) fun _ =>
      .wide (by omega) (by simp)
  refine .orElse ?_ (.orElse ?_ (.orElse ?_ ?_))
  · exact .skip .symbol fun _ => .wide (by omega) (by simp [ParamItem.nodes])
  · refine Lays.node (.skip .symbol fun _ => .skip .name fun _ => ?_)
    exact .bind (typeHint_lays hr annotated) fun _ => .builtAs (by omega) (fun _ => rfl)
      (fun _ => rfl) (fun _ => rfl) (fun _ => rfl) (by simp [Node.children])
  · refine Lays.node (.skip .symbol fun _ => .bind (.opt hnamed) fun found => ?_)
    cases found with
    | none => exact .kept (by omega) (by simp [ParamItem.nodes])
    | some found =>
      exact .builtAs (by omega) (fun _ => rfl) (fun _ => rfl) (fun _ => rfl) (fun _ => rfl)
        (by simp [Node.children])
  · refine Lays.node (.skip .name fun _ => .bind (typeHint_lays hr annotated) fun _ => ?_)
    exact .bind hdefault fun _ => .builtAs (by omega) (fun _ => rfl) (fun _ => rfl) (fun _ => rfl)
      (fun _ => rfl) (by simp +contextual [Node.children])

omit hr

/-- A parameter lies where it does whatever its kind is. -/
theorem liesIn_kind {p : Param} (kind : ParamKind)
    (h : (Node.param p).LiesIn t.chars lo hi) :
    (Node.param { p with kind }).LiesIn t.chars lo hi :=
  .of_children h.start h.stop h.placed.nonempty h.placed.inside h.children (by simp [Node.text?])
    .nil (by simp [Node.inner])

theorem assignKinds_fits (slashAhead afterStar : Bool) {items : List ParamItem}
    (h : Fits t.chars lo hi (items.flatMap ParamItem.nodes)) :
    Fits t.chars lo hi ((assignKinds slashAhead afterStar items).map .param) := by
  induction items generalizing slashAhead afterStar with
  | nil => simp [assignKinds]
  | cons item items ih =>
    rw [List.flatMap_cons, fits_append] at h
    cases item with
    | slash => exact ih false afterStar h.2
    | star => exact ih slashAhead true h.2
    | param p =>
      have hp := (fits_cons.mp h.1).1
      unfold assignKinds
      split
      · exact fits_cons.mpr ⟨hp, ih _ _ h.2⟩
      · exact fits_cons.mpr ⟨hp, ih _ _ h.2⟩
      · exact fits_cons.mpr ⟨liesIn_kind _ hp, ih _ _ h.2⟩

include hr

theorem params_lays (annotated : Bool) : Lays t 0 (params r annotated) fun ps => ps.map .param :=
  Gathers.bind (.sepEndBy (paramItem_lays hr annotated) .symbol) fun _ =>
    .wide (Nat.le_refl _) fun _ _ hitems => assignKinds_fits _ _ hitems

/-! ### Atoms -/

omit hr in
/-- The expressions in what follows the first element of a display. -/
def ElementTail.nodes : ElementTail → List Node
  | clauses generators => (generators.flatMap Comprehension.exprs).map .expr
  | more elements => elements.map .expr
  | nothing => []

theorem elementTail_lays : Lays t 0 (elementTail r) ElementTail.nodes := by
  refine .orElse ?_ (.orElse ?_ (.wide (Nat.le_refl _) (by simp [ElementTail.nodes])))
  · exact .bind (clauses_lays hr) fun _ => .wide (by omega) (by simp [ElementTail.nodes])
  · exact .skip .symbol fun _ => .bind (.sepEndBy (starItem_lays hr) .symbol) fun _ =>
      .wide (by omega) (by simp [ElementTail.nodes])

omit hr

/-- A name or literal covers its token, and is written there. -/
theorem leaf_liesIn {lexeme : Lexeme} (hlexeme : lexeme ∈ t.stream)
    (hplain : lexeme.token.isMark = false) (hlo : lo ≤ lexeme.span.start)
    (hspan : e.span = lexeme.span) (hchildren : e.children = [])
    (htext : ∀ text, (Node.expr e).text? = some text → lexeme.token.text = text) :
    (Node.expr e).LiesIn t.chars lo lexeme.span.stop := by
  obtain ⟨hnonempty, hslice⟩ := t.written lexeme hlexeme hplain
  have hinside := (t.inside lexeme hlexeme).2
  rw [← hspan] at hnonempty hslice hinside hlo ⊢
  refine .of_children hlo (Nat.le_refl _) hnonempty hinside ?_ ?_ .nil (by simp [Node.inner])
  · show Fits t.chars _ _ e.children
    rw [hchildren]
    exact fits_nil
  · intro text hfound
    rw [← htext text hfound]
    exact hslice

theorem nameAtom_lays : LaysExpr t nameAtom := by
  refine .of_liesIn fun lo => .single fun lexeme hlexeme id hid hlo => ?_
  split at hid
  · rename_i text htoken
    cases hid
    refine leaf_liesIn hlexeme (by rw [htoken]; rfl) hlo rfl rfl ?_
    intro text htext
    rw [htoken]
    exact Option.some.inj htext
  · simp at hid

theorem constantAtom_lays : LaysExpr t constantAtom := by
  refine .of_liesIn fun lo => .single fun lexeme hlexeme value hvalue hlo => ?_
  split at hvalue
  case h_6 => simp at hvalue
  all_goals
    rename_i htoken
    cases hvalue
    refine leaf_liesIn hlexeme (by rw [htoken]; rfl) hlo rfl rfl ?_
    simp [Node.text?, htoken, Token.text]

theorem stringAtom_lays : LaysExpr t stringAtom := by
  refine .node (.skip ((Lays.many1 (.satisfy fun token htoken => ?_)).imp (Nat.le_refl _) ?_)
    fun _ => .built (by omega) (fun _ => rfl) (fun _ => rfl) (by simp [Expr.children]))
  · cases token with
    | string text => simp [Token.isMark] at htoken
    | _ => rfl
  · simp

include hr

theorem parenElements_lays : LaysExpr t (parenElements r) := by
  refine .node (.bind (starItem_lays hr) fun first => .bind (elementTail_lays hr) fun tail => ?_)
  cases tail with
  | clauses generators =>
    exact .built (by omega) (fun _ => rfl) (fun _ => rfl)
      (by simp +contextual [Expr.children, ElementTail.nodes])
  | more rest =>
    exact .built (by omega) (fun _ => rfl) (fun _ => rfl)
      (by simp +contextual [Expr.children, ElementTail.nodes])
  | nothing => exact .kept (by omega) (by simp [ElementTail.nodes])

omit hr in
/-- What was inside a tuple or generator is inside the brackets around it. -/
theorem children_fits (h : (Node.expr e).LiesIn t.chars lo hi) : Fits t.chars lo hi e.children :=
  h.children.mono h.start h.stop

theorem parenAtom_lays : LaysExpr t (parenAtom r) := by
  have hinner : Lays t 0
      ((do return some (← yieldExpr r)) <|> (do return some (← parenElements r)) <|> return none)
      fun inner => inner.toList.map .expr :=
    Gathers.orElse (.bind (yieldExpr_lays hr) fun _ => .wide (by omega) (by simp))
      (.orElse (.bind (parenElements_lays hr) fun _ => .wide (by omega) (by simp))
        (.wide (Nat.le_refl _) (by simp)))
  refine .node (.bind (.bracketed hinner) fun inner => ?_)
  unfold parenthesized
  split
  · exact .built (by omega) (fun _ => rfl) (fun _ => rfl) (by simp [Expr.children])
  · exact .built (by omega) (fun _ => rfl) (fun _ => rfl)
      fun _ _ _ hns => (children_fits (fits_cons.mp hns).1 :)
  · exact .built (by omega) (fun _ => rfl) (fun _ => rfl)
      fun _ _ _ hns => (children_fits (fits_cons.mp hns).1 :)
  · exact .kept (by omega) (by simp)

theorem listAtom_lays : LaysExpr t (listAtom r) := by
  have helements : Lays t 1
      (do
        let first ← starItem r
        let tail ← elementTail r
        return (first, tail)) fun found => .expr found.1 :: found.2.nodes :=
    Gathers.bind (starItem_lays hr) fun _ => .bind (elementTail_lays hr) fun _ =>
      .wide (by omega) (by simp)
  refine .node (.bind (.bracketed (.opt helements)) fun inner => ?_)
  match inner with
  | none => exact .built (by omega) (fun _ => rfl) (fun _ => rfl) (by simp [Expr.children])
  | some (first, .clauses generators) | some (first, .more rest) | some (first, .nothing) =>
    exact .built (by omega) (fun _ => rfl) (fun _ => rfl)
      (by simp +contextual [Expr.children, ElementTail.nodes])

theorem spreadItem_lays : Lays t 1 (spreadItem r) fun i => i.exprs.map .expr :=
  Gathers.skip .symbol fun _ => .bind hr.operand fun _ =>
    .wide (by omega) (by simp [DictItem.exprs])

theorem keyedItem_lays : Lays t 1 (keyedItem r) fun item => [.expr item.1, .expr item.2] :=
  Gathers.bind hr.expr fun _ => .skip .symbol fun _ => .bind hr.expr fun _ =>
    .wide (by omega) (by simp)

theorem moreItems_lays :
    Lays t 0 (moreItems r) fun items => (items.flatMap DictItem.exprs).map .expr := by
  refine .bind (.opt (Gathers.skip .symbol fun _ => .last (.sepEndBy (k := 1)
    (g := fun i : DictItem => i.exprs.map .expr) (.orElse (spreadItem_lays hr) ?_) .symbol)
    (Nat.le_refl _))) fun items => .wide (Nat.le_refl _) ?_
  · exact .bind (keyedItem_lays hr) fun _ => .wide (by omega) (by simp [DictItem.exprs])
  · cases items with
    | none => simp
    | some items => simp [List.map_flatMap]

omit hr

/-- What is built over any span around an offset pair lies in that span. -/
def Around (t : Site) (base hi : Nat) (build : Span → Expr) : Prop :=
  ∀ span, span.start ≤ base → hi ≤ span.stop → span.start < span.stop →
    span.stop ≤ byteLength t.chars → (Node.expr (build span)).LiesIn t.chars span.start span.stop

theorem around_gathers {k : Nat} {ns : List Node} {build : Span → Expr}
    (hspan : ∀ span, (build span).span = span)
    (htext : ∀ span, (Node.expr (build span)).text? = none)
    (hchildren : ∀ span base hi, Fits t.chars base hi ns →
      Fits t.chars base hi (build span).children) : Gathers t k ns (pure build) (Around t) := by
  refine .pure fun base hi _ hns span hbase hhi hlt hsize => ?_
  refine Expr.liesIn (htext _) (by rw [hspan]) (by rw [hspan]) ?_ ?_ ?_
  · rwa [hspan]
  · rwa [hspan]
  · rw [hspan]
    exact (hchildren span base hi hns).mono hbase hhi

include hr

theorem braceBody_gathers : Gathers t 0 [] (braceBody r) (Around t) := by
  refine .orElse ?_ (.orElse ?_ (.orElse ?_ ?_))
  · exact .bind (spreadItem_lays hr) fun _ => .bind (moreItems_lays hr) fun _ =>
      around_gathers (fun _ => rfl) (fun _ => rfl) (by simp +contextual [Expr.children])
  · refine .bind (keyedItem_lays hr) fun _ => .orElse ?_ ?_
    · exact .bind (clauses_lays hr) fun _ =>
        around_gathers (fun _ => rfl) (fun _ => rfl) (by simp +contextual [Expr.children])
    · exact .bind (moreItems_lays hr) fun _ =>
        around_gathers (fun _ => rfl) (fun _ => rfl)
          (by simp +contextual [Expr.children, DictItem.exprs])
  · refine .bind (starItem_lays hr) fun first => .bind (elementTail_lays hr) fun tail => ?_
    cases tail with
    | _ =>
      exact around_gathers (fun _ => rfl) (fun _ => rfl)
        (by simp +contextual [Expr.children, ElementTail.nodes])
  · exact around_gathers (fun _ => rfl) (fun _ => rfl) (by simp [Expr.children])

theorem braceAtom_lays : LaysExpr t (braceAtom r) := by
  refine .of_liesIn fun lo => .node fun here hhere => ?_
  refine .bind (Lays.symbol.places here) fun _ m₁ _ hopen => ?_
  refine .bind (braceBody_gathers hr (Nat.le_refl m₁) fits_nil) fun build m₂ _ hbuild => ?_
  refine .bind (Lays.symbol.places m₂) fun _ hi _ hclose => .pure ?_
  have hopen := hopen.1
  have hclose := hclose.1
  refine ⟨by omega, fun hsize => ?_⟩
  refine (hbuild ⟨here, hi⟩ ?_ ?_ ?_ hsize).mono hhere (Nat.le_refl _)
  all_goals
    simp only
    omega

theorem atom_lays : LaysExpr t (atom r) :=
  Gathers.orElse nameAtom_lays <| .orElse constantAtom_lays <| .orElse stringAtom_lays <|
    .orElse (parenAtom_lays hr) <| .orElse (listAtom_lays hr) (braceAtom_lays hr)

/-! ### Primaries and operators -/

theorem sliceTail_lays :
    Lays t 1 (sliceTail r) fun bounds => (bounds.1.toList ++ bounds.2.toList).map .expr := by
  refine .skip .symbol fun _ => .bind (.opt hr.expr) fun upper => ?_
  refine .bind (.opt (Gathers.skip .symbol fun _ => .last (.opt hr.expr) (Nat.le_refl _)))
    fun step => .wide (by omega) ?_
  cases step with
  | none => simp
  | some step => simp +contextual

theorem subscriptItem_lays : LaysExpr t (subscriptItem r) := by
  refine .orElse (Lays.node ?_) (.orElse (Lays.node ?_) (starredOperand_lays hr))
  · refine .bind hr.expr fun lower => .bind (.opt (sliceTail_lays hr)) fun tail => ?_
    cases tail with
    | none => exact .kept (by omega) (by simp)
    | some bounds =>
      exact .built (by omega) (fun _ => rfl) (fun _ => rfl) (by simp +contextual [Expr.children])
  · exact .bind (sliceTail_lays hr) fun _ =>
      .built (by omega) (fun _ => rfl) (fun _ => rfl) (by simp +contextual [Expr.children])

omit hr

/-- The expressions in a trailer. -/
def Trailer.nodes : Trailer → List Node
  | member _ => []
  | call args keywords => args.map .expr ++ keywords.map (.expr ·.value)
  | index item => [.expr item]

/-- A trailer between two offsets, with its expressions in it. -/
structure TrailerIn (t : Site) (lo hi : Nat) (found : Trailer × Span) : Prop where
  covers : CoversIn t lo hi found.2
  fits : Fits t.chars found.2.start found.2.stop found.1.nodes

include hr

theorem trailer_places (lo : Nat) :
    Places t lo (trailer r) fun hi found => TrailerIn t lo hi found := by
  refine .node fun here hhere => .bind (Lays.places (k := 1) (g := Trailer.nodes)
    (.orElse ?_ (.orElse ?_ ?_)) here) fun found hi _ hfound => .pure ?_
  · exact .skip .symbol fun _ => .skip .name fun _ => .wide (by omega) (by simp [Trailer.nodes])
  · exact .bind (arguments_lays hr) fun _ => .wide (by omega) (by simp +contextual [Trailer.nodes])
  · exact .bind (.bracketed (exprList_lays (subscriptItem_lays hr))) fun _ =>
      .wide (by omega) (by simp [Trailer.nodes])
  · have hwide := hfound.1
    exact ⟨by omega, fun hsize => ⟨⟨hhere, hwide, Nat.le_refl _, hsize⟩, hfound.2⟩⟩

omit hr

theorem withTrailer_children (value : Expr) (trailer : Trailer) (span : Span) :
    (withTrailer value (trailer, span)).children = .expr value :: trailer.nodes := by
  cases trailer <;> rfl

theorem withTrailer_span (value : Expr) (trailer : Trailer) (span : Span) :
    (withTrailer value (trailer, span)).span = .cover value.span span := by
  cases trailer <;> rfl

theorem withTrailer_liesIn {mid : Nat} {value : Expr} {found : Trailer × Span}
    (hvalue : (Node.expr value).LiesIn t.chars lo mid) (hfound : TrailerIn t mid hi found) :
    (Node.expr (withTrailer value found)).LiesIn t.chars lo hi := by
  obtain ⟨trailer, span⟩ := found
  have hstart : mid ≤ span.start := hfound.covers.start
  have hnonempty : span.start < span.stop := hfound.covers.nonempty
  have hvalue₁ := hvalue.stop
  have hvalue₂ := hvalue.placed.nonempty
  simp only [Node.span] at hvalue₁ hvalue₂
  have htext : (Node.expr (withTrailer value (trailer, span))).text? = none := by
    cases trailer <;> rfl
  refine Expr.liesIn htext ?_ ?_ ?_ ?_ ?_
  all_goals simp only [withTrailer_span, withTrailer_children, Span.cover]
  · exact hvalue.start
  · exact hfound.covers.stop
  · omega
  · exact hfound.covers.inside
  · refine fits_cons.mpr ⟨⟨Nat.le_refl _, ?_, hvalue.below⟩, hfound.fits.mono ?_ (Nat.le_refl _)⟩
    · simp only [Node.span]
      omega
    · show value.span.start ≤ span.start
      omega

include hr

theorem primary_lays : LaysExpr t (primary r) := by
  refine .of_liesIn fun lo => .bind ((atom_lays hr).liesIn lo) fun value mid _ hvalue => ?_
  refine .bind (.many (trailer_places hr)) fun trailers hi _ htrailers => .pure ?_
  refine foldl_liesIn ?_ hvalue htrailers
  exact fun _ _ _ _ he hfound => withTrailer_liesIn he hfound

theorem awaitPrimary_lays : LaysExpr t (awaitPrimary r) := by
  refine .of_liesIn fun lo => .bind (.opt (spanOf_covers rfl)) fun mark mid _ hmark => ?_
  refine .bind ((primary_lays hr).liesIn mid) fun value hi _ hvalue => .pure ?_
  cases mark with
  | none =>
    obtain rfl : mid = lo := hmark
    exact hvalue
  | some mark => exact marked_liesIn hmark hvalue rfl rfl rfl

theorem power_lays : LaysExpr t (power r) := by
  have hexponent : LaysExpr t (do Parser.symbol .doubleStar; r.factor) :=
    Gathers.skip .symbol fun _ => .last hr.factor (by omega)
  refine .of_liesIn fun lo => .bind ((awaitPrimary_lays hr).liesIn lo) fun base mid _ hbase => ?_
  refine .bind (.opt (hexponent.liesIn mid)) fun exponent hi hle hfound => .pure ?_
  cases exponent with
  | none => exact hbase.mono (Nat.le_refl _) hle
  | some exponent => exact binary_liesIn hbase hfound

theorem signed_lays : LaysExpr t (signed r) := by
  refine .of_liesIn fun lo => .bind (single_covers fun token htoken => ?_) fun _ mid _ hmark =>
    .bind (hr.factor.liesIn mid) fun _ _ _ hoperand =>
      .pure (marked_liesIn hmark hoperand rfl rfl rfl)
  cases token with
  | symbol s => simp [Token.isMark] at htoken
  | _ => rfl

omit hr in
/-- Operators of one level lay their operands in a row. -/
theorem binaryLevel_lays {operand : Parser Expr} {op? : Token → Option BinOp}
    (hoperand : LaysExpr t operand) (hop : ∀ token, token.isMark = true → op? token = none) :
    LaysExpr t (binaryLevel operand op?) := by
  have hright : Lays t 1
      (do
        let op ← Parser.satisfy op?
        let right ← operand
        return (op, right)) fun found => [.expr found.2] :=
    Gathers.skip (.satisfy hop) fun _ => .bind hoperand fun _ => .wide (by omega) (by simp)
  refine .of_liesIn fun lo => .bind (hoperand.liesIn lo) fun left mid _ hleft => ?_
  refine .bind (.many hright.places) fun rest hi _ hrest => .pure ?_
  exact foldl_liesIn (fun _ _ _ _ he hb => binary_liesIn he (fits_cons.mp hb.2).1) hleft hrest

theorem bitOr_lays : LaysExpr t (bitOr r) := by
  have hmark (op? : Token → Option BinOp) (hnewline : op? .newline = none)
      (hindent : op? .indent = none) (hdedent : op? .dedent = none) (token : Token)
      (htoken : token.isMark = true) : op? token = none := by
    cases token with
    | newline => exact hnewline
    | indent => exact hindent
    | dedent => exact hdedent
    | _ => simp [Token.isMark] at htoken
  have hproduct : LaysExpr t (product r) := binaryLevel_lays hr.factor (hmark _ rfl rfl rfl)
  have hsum : LaysExpr t (sum r) := binaryLevel_lays hproduct (hmark _ rfl rfl rfl)
  have hshift : LaysExpr t (shift r) := binaryLevel_lays hsum (hmark _ rfl rfl rfl)
  have hand : LaysExpr t (bitAnd r) := binaryLevel_lays hshift (hmark _ rfl rfl rfl)
  have hxor : LaysExpr t (bitXor r) := binaryLevel_lays hand (hmark _ rfl rfl rfl)
  exact binaryLevel_lays hxor (hmark _ rfl rfl rfl)

/-! ### Comparisons and truth -/

omit hr in
theorem cmpOp_lays : Lays t 1 cmpOp fun _ => [] := by
  refine .orElse ?_ (.orElse ?_ (Lays.satisfy fun token htoken => ?_))
  · exact .skip .keyword fun _ => .skip .keyword fun _ => .wide (by omega) (by simp)
  · exact .skip .keyword fun _ => .skip .keyword fun _ => .wide (by omega) (by simp)
  · cases token with
    | symbol s => simp [Token.isMark] at htoken
    | keyword k => simp [Token.isMark] at htoken
    | _ => rfl

theorem comparison_lays : LaysExpr t (comparison r) := by
  have hright : Lays t 1
      (do
        let op ← cmpOp
        let right ← r.operand
        return (op, right)) fun found => [.expr found.2] :=
    Gathers.skip cmpOp_lays fun _ => .bind hr.operand fun _ => .wide (by omega) (by simp)
  exact .of_liesIn fun lo => .bind (hr.operand.liesIn lo) fun _ _ _ hleft =>
    .bind (.many hright.places) fun _ _ _ hrest => .pure (comparisonOf_liesIn hleft hrest)

theorem notTest_lays : LaysExpr t (notTest r) :=
  .of_liesIn fun _ => .bind (.many fun _ => spanOf_covers rfl) fun _ mid _ hmarks =>
    .bind ((comparison_lays hr).liesIn mid) fun _ _ _ hoperand =>
      .pure (notTest_liesIn hmarks hoperand)

omit hr in
/-- A chain of operands with one keyword between them. -/
theorem chained_lays {operand : Parser Expr} (hoperand : LaysExpr t operand) (kw : Keyword)
    (op : BoolOp) :
    LaysExpr t (do
      let left ← operand
      let rest ← Parser.many (do Parser.keyword kw; operand)
      return rest.foldl (chain op) left) := by
  have hright : LaysExpr t (do Parser.keyword kw; operand) :=
    Gathers.skip .keyword fun _ => .last hoperand (by omega)
  refine .of_liesIn fun lo => .bind (hoperand.liesIn lo) fun left mid _ hleft => ?_
  refine .bind (.many hright.liesIn) fun rest hi _ hrest => .pure ?_
  refine foldl_liesIn ?_ hleft hrest
  exact fun _ _ _ _ he hright => chain_liesIn he hright

theorem orTest_lays : LaysExpr t (orTest r) :=
  chained_lays (chained_lays (notTest_lays hr) .and_ .and) .or_ .or

theorem conditional_lays : LaysExpr t (conditional r) := by
  have horTest := orTest_lays hr
  have htail (lo : Nat) : Places t lo
      (do
        Parser.keyword .if_
        let test ← orTest r
        Parser.keyword .else_
        let orElse ← r.expr
        return (test, orElse)) fun hi found => ∃ mid, lo ≤ mid ∧
          (Node.expr found.1).LiesIn t.chars lo mid ∧
          (Node.expr found.2).LiesIn t.chars mid hi := by
    refine .bind (Lays.keyword.places lo) fun _ m₁ h₁ _ => ?_
    refine .bind (horTest.liesIn m₁) fun test m₂ h₂ htest => ?_
    refine .bind (Lays.keyword.places m₂) fun _ m₃ h₃ _ => ?_
    refine .bind (hr.expr.liesIn m₃) fun orElse hi _ horElse => .pure ?_
    exact ⟨m₃, by omega, htest.mono h₁ h₃, horElse⟩
  refine .of_liesIn fun lo => .bind (horTest.liesIn lo) fun body mid _ hbody => ?_
  refine .bind (.opt (htail mid)) fun tail hi hle hfound => .pure ?_
  cases tail with
  | none => exact hbody.mono (Nat.le_refl _) hle
  | some found =>
    obtain ⟨between, hbetween, htest, horElse⟩ := hfound
    refine spanning_liesIn hbody (fits_cons.mpr ⟨htest, fits_nil⟩) horElse hbetween rfl rfl ?_
    simp +contextual [Expr.children]

theorem lambda_lays : LaysExpr t (lambda r) :=
  .node (.skip .keyword fun _ => .bind (params_lays hr false) fun _ => .skip .symbol fun _ =>
    .bind hr.expr fun _ =>
      .built (by omega) (fun _ => rfl) (fun _ => rfl) (by simp +contextual [Expr.children]))

theorem namedExpr_lays : LaysExpr t (namedExpr r) :=
  .node (.bind nameAtom_lays fun _ => .skip .symbol fun _ => .bind hr.expr fun _ =>
    .built (by omega) (fun _ => rfl) (fun _ => rfl) (by simp +contextual [Expr.children]))

theorem unroll_laid : (unroll r).Laid t where
  expr := Gathers.orElse (namedExpr_lays hr) (.orElse (lambda_lays hr) (conditional_lays hr))
  operand := bitOr_lays hr
  factor := Gathers.orElse (signed_lays hr) (power_lays hr)

end

end Grammar

/-- The rules lay their expressions over what they read, however often they are unrolled. -/
theorem ExprRules.upTo_laid (t : Site) (n : Nat) : (ExprRules.upTo n).Laid t := by
  induction n with
  | zero => exact ⟨Parser.Gathers.fail, Parser.Gathers.fail, Parser.Gathers.fail⟩
  | succ n ih => exact Grammar.unroll_laid ih

end Scrutiny
