/-
The nodes of a syntax tree and where they stand.

A node is a part of a tree that carries a span: statements, expressions, parameters,
handlers and case clauses.  `Node.children` are the nodes directly inside one, through
parts that carry none, and `Node.Has` is every node below, itself included.

A node is placed right (`Node.Placed`) if its span is not empty and inside the text,
its children lie within it, a name or numeral is written there, and the statements in
its blocks come one after another, behind its own beginning.  A list of nodes fits
between two offsets (`Fits`) if each of them lies there and all below it is placed
right.  This is the form in which the grammar passes nodes on, and `Node.LiesIn.of_children`
puts a new node on top of some that fit.

What is inside a node is smaller than it (`Node.children_smaller`), so that one can
recurse from a node to the nodes below.

Statements are then in order throughout a tree (`Stmt.withInner_ascend`): what a
statement holds begins after it and before its end.
-/
import Mathlib.Data.List.Basic
import Scrutiny.Syntax.Stmt
import Scrutiny.Text.Bytes

namespace Scrutiny

variable {α : Type} {as : List α} {cs : List Char} {m n : Node} {s t : Stmt}

/-- A part of a tree that carries a span. -/
inductive Node where
  | stmt (stmt : Stmt)
  | expr (expr : Expr)
  | param (param : Param)
  | typeParam (param : TypeParam)
  | handler (handler : Handler)
  | case (clause : MatchCase)

/-- One span lies within another. -/
structure Span.Within (inner outer : Span) : Prop where
  start : outer.start ≤ inner.start
  stop : inner.stop ≤ outer.stop

/-! ### Children -/

/-- The expressions of a clause of a comprehension. -/
def Comprehension.exprs (clause : Comprehension) : List Expr :=
  clause.target :: clause.iter :: clause.conditions

/-- The expressions of an item of a dictionary. -/
def DictItem.exprs (item : DictItem) : List Expr := item.key.toList ++ [item.value]

/-- The expressions of an item of a `with`. -/
def WithItem.exprs (item : WithItem) : List Expr := item.context :: item.vars.toList

/-- The nodes directly inside an expression. -/
def Expr.children : Expr → List Node
  | .name .. | .constant .. | .string .. => []
  | .boolOp _ _ values => values.map .expr
  | .binOp _ left _ right => [.expr left, .expr right]
  | .unaryOp _ _ operand => [.expr operand]
  | .compare _ left _ comparators => .expr left :: comparators.map .expr
  | .lambda _ params body => params.map .param ++ [.expr body]
  | .conditional _ test body orElse => [.expr test, .expr body, .expr orElse]
  | .named _ target value => [.expr target, .expr value]
  | .call _ func args keywords => .expr func :: args.map .expr ++ keywords.map (.expr ·.value)
  | .member _ value _ => [.expr value]
  | .subscript _ value index => [.expr value, .expr index]
  | .slice _ lower upper step => (lower.toList ++ upper.toList ++ step.toList).map .expr
  | .starred _ value => [.expr value]
  | .list _ elts | .tuple _ elts | .set _ elts => elts.map .expr
  | .dict _ items => (items.flatMap DictItem.exprs).map .expr
  | .listComp _ elt clauses | .setComp _ elt clauses | .generator _ elt clauses =>
    .expr elt :: (clauses.flatMap Comprehension.exprs).map .expr
  | .dictComp _ key value clauses =>
    .expr key :: .expr value :: (clauses.flatMap Comprehension.exprs).map .expr
  | .await _ value | .yieldFrom _ value => [.expr value]
  | .yield _ value => value.toList.map .expr

/-- The nodes directly inside a statement. -/
def Stmt.children : Stmt → List Node
  | .expr _ value => [.expr value]
  | .assign _ targets value => targets.map .expr ++ [.expr value]
  | .augAssign _ target _ value => [.expr target, .expr value]
  | .annAssign _ target hint value => .expr target :: .expr hint :: value.toList.map .expr
  | .pass_ _ | .break_ _ | .continue_ _ | .global_ .. | .nonlocal_ .. | .import_ ..
  | .importFrom .. => []
  | .return_ _ value => value.toList.map .expr
  | .raise_ _ exc cause => (exc.toList ++ cause.toList).map .expr
  | .delete_ _ targets => targets.map .expr
  | .assert_ _ test msg => .expr test :: msg.toList.map .expr
  | .if_ _ test body orElse | .while_ _ test body orElse =>
    .expr test :: (body ++ orElse).map .stmt
  | .for_ _ target iter body orElse _ =>
    .expr target :: .expr iter :: (body ++ orElse).map .stmt
  | .try_ _ body handlers orElse finalBody =>
    body.map .stmt ++ handlers.map .handler ++ (orElse ++ finalBody).map .stmt
  | .with_ _ items body _ => (items.flatMap WithItem.exprs).map .expr ++ body.map .stmt
  | .match_ _ subject cases => .expr subject :: cases.map .case
  | .typeAlias _ name typeParams value =>
    .expr name :: typeParams.map .typeParam ++ [.expr value]
  | .function _ definition =>
    definition.decorators.map .expr ++ definition.typeParams.map .typeParam ++
      definition.params.map .param ++ definition.returns.toList.map .expr ++
      definition.body.map .stmt
  | .class_ _ definition =>
    definition.decorators.map .expr ++ definition.typeParams.map .typeParam ++
      definition.bases.map .expr ++ definition.keywords.map (.expr ·.value) ++
      definition.body.map .stmt

namespace Node

/-- The text a node came from. -/
def span : Node → Span
  | stmt s => s.span
  | expr e => e.span
  | param p => p.span
  | typeParam p => p.span
  | handler h => h.span
  | case c => c.span

/-- The nodes directly inside a node. -/
def children : Node → List Node
  | stmt s => s.children
  | expr e => e.children
  | param p => (p.hint.toList ++ p.default.toList).map .expr
  | typeParam p => p.bound.toList.map .expr
  | handler h => h.type.toList.map .expr ++ h.body.map .stmt
  | case c =>
    .expr c.pattern :: (c.binding.toList ++ c.guard.toList).map .expr ++ c.body.map .stmt

/-- A node is at or below another. -/
inductive Has : Node → Node → Prop
  | self {n : Node} : Has n n
  | child {n m : Node} {inner : Node} (hinner : inner ∈ n.children) (hm : Has inner m) : Has n m

/-- How a node is written, if that is a single token: a name or a numeral. -/
def text? : Node → Option String
  | expr (.name _ id) => some id
  | expr (.constant _ (.number text)) => some text
  | _ => none

/-- The statements in the blocks of a node, in source order. -/
def inner : Node → List Stmt
  | stmt s => s.blocks.flatten
  | _ => []

end Node

/-- A node is at or below a statement of a module. -/
def Module.Has (module : Module) (n : Node) : Prop :=
  ∃ s ∈ module.body, (Node.stmt s).Has n

/-- Some statements stand one after another. -/
def InSequence (stmts : List Stmt) : Prop :=
  stmts.Pairwise fun a b => a.span.stop ≤ b.span.start

/-- A node stands where its span says. -/
structure Node.Placed (cs : List Char) (n : Node) : Prop where
  nonempty : n.span.start < n.span.stop
  inside : n.span.stop ≤ byteLength cs
  children : ∀ child ∈ n.children, child.span.Within n.span
  written : ∀ text, n.text? = some text → sliceBytes? cs n.span = some text.toList
  /-- Its blocks follow each other, and so do the statements in each. -/
  sequence : InSequence n.inner
  /-- No statement in its blocks begins before it does, or where it does. -/
  behind : ∀ s ∈ n.inner, n.span.start < s.span.start

/-! ### Nodes that fit between two offsets -/

/-- A node lies between two offsets, and all that is below it is placed right. -/
structure Node.LiesIn (cs : List Char) (lo hi : Nat) (n : Node) : Prop where
  start : lo ≤ n.span.start
  stop : n.span.stop ≤ hi
  below : ∀ m, n.Has m → m.Placed cs

/-- Some nodes all lie between two offsets. -/
def Fits (cs : List Char) (lo hi : Nat) (ns : List Node) : Prop :=
  ∀ n ∈ ns, n.LiesIn cs lo hi

theorem Node.LiesIn.placed {lo hi : Nat} (h : n.LiesIn cs lo hi) : n.Placed cs :=
  h.below n .self

section

variable {cs : List Char} {lo hi : Nat} {n : Node} {ns ms : List Node}

@[simp] theorem fits_nil : Fits cs lo hi [] := by
  simp [Fits]

@[simp] theorem fits_cons : Fits cs lo hi (n :: ns) ↔ n.LiesIn cs lo hi ∧ Fits cs lo hi ns := by
  simp [Fits]

@[simp] theorem fits_append : Fits cs lo hi (ns ++ ms) ↔ Fits cs lo hi ns ∧ Fits cs lo hi ms := by
  simp only [Fits, List.mem_append]
  exact ⟨fun h => ⟨fun n hn => h n (Or.inl hn), fun n hn => h n (Or.inr hn)⟩,
    fun h n hn => hn.elim (h.1 n) (h.2 n)⟩

@[simp] theorem fits_map {f : α → Node} :
    Fits cs lo hi (as.map f) ↔ ∀ a ∈ as, (f a).LiesIn cs lo hi := by
  simp [Fits]

@[simp] theorem fits_flatMap {f : α → List Node} :
    Fits cs lo hi (as.flatMap f) ↔ ∀ a ∈ as, Fits cs lo hi (f a) := by
  simp only [Fits, List.mem_flatMap]
  exact ⟨fun h a ha n hn => h n ⟨a, ha, hn⟩, fun h n ⟨a, ha, hn⟩ => h a ha n hn⟩

theorem Node.LiesIn.mono {lo' hi' : Nat} (h : n.LiesIn cs lo hi) (hlo : lo' ≤ lo) (hhi : hi ≤ hi') :
    n.LiesIn cs lo' hi' :=
  ⟨Nat.le_trans hlo h.start, Nat.le_trans h.stop hhi, h.below⟩

theorem Fits.mono {lo' hi' : Nat} (h : Fits cs lo hi ns) (hlo : lo' ≤ lo) (hhi : hi ≤ hi') :
    Fits cs lo' hi' ns :=
  fun n hn => (h n hn).mono hlo hhi

/-- A node fits if its children fit inside it. -/
theorem Node.LiesIn.of_children (hstart : lo ≤ n.span.start) (hstop : n.span.stop ≤ hi)
    (hnonempty : n.span.start < n.span.stop) (hinside : n.span.stop ≤ byteLength cs)
    (hchildren : Fits cs n.span.start n.span.stop n.children)
    (hwritten : ∀ text, n.text? = some text → sliceBytes? cs n.span = some text.toList)
    (hsequence : InSequence n.inner) (hbehind : ∀ s ∈ n.inner, n.span.start < s.span.start) :
    n.LiesIn cs lo hi := by
  refine ⟨hstart, hstop, fun m hm => ?_⟩
  cases hm with
  | self =>
    refine ⟨hnonempty, hinside, fun child hchild => ?_, hwritten, hsequence, hbehind⟩
    exact ⟨(hchildren child hchild).start, (hchildren child hchild).stop⟩
  | child hinner hm => exact (hchildren _ hinner).below m hm

/-- The same for an expression of more than one token. -/
theorem Expr.liesIn {e : Expr} (htext : (Node.expr e).text? = none) (hstart : lo ≤ e.span.start)
    (hstop : e.span.stop ≤ hi) (hnonempty : e.span.start < e.span.stop)
    (hinside : e.span.stop ≤ byteLength cs)
    (hchildren : Fits cs e.span.start e.span.stop e.children) : (Node.expr e).LiesIn cs lo hi :=
  .of_children hstart hstop hnonempty hinside hchildren (by simp [htext]) .nil
    (by simp [Node.inner])

end

/-! ### Sizes -/

/-- How much there is at and below a node. -/
noncomputable def Node.size : Node → Nat
  | .stmt s => sizeOf s
  | .expr e => sizeOf e
  | .param p => sizeOf p
  | .typeParam p => sizeOf p
  | .handler h => sizeOf h
  | .case c => sizeOf c

/-- All of some nodes are smaller than a bound. -/
def Smaller (bound : Nat) (ns : List Node) : Prop :=
  ∀ n ∈ ns, n.size < bound

section

variable {bound : Nat} {ns ms : List Node}

@[simp] theorem smaller_nil : Smaller bound [] := by
  simp [Smaller]

@[simp] theorem smaller_cons : Smaller bound (n :: ns) ↔ n.size < bound ∧ Smaller bound ns := by
  simp [Smaller]

@[simp] theorem smaller_append :
    Smaller bound (ns ++ ms) ↔ Smaller bound ns ∧ Smaller bound ms := by
  simp only [Smaller, List.forall_mem_append]

/-- Nodes that are no larger than the items of a list are smaller than the list. -/
theorem smaller_map [SizeOf α] {f : α → Node}
    (hf : ∀ a, (f a).size ≤ sizeOf a) (h : sizeOf as ≤ bound) : Smaller bound (as.map f) := by
  intro n hn
  obtain ⟨a, ha, rfl⟩ := List.mem_map.mp hn
  have hlt := List.sizeOf_lt_of_mem ha
  have hle := hf a
  omega

/-- For the items that are nodes themselves. -/
theorem smaller_nodes :
    (∀ es : List Expr, sizeOf es ≤ bound → Smaller bound (es.map .expr)) ∧
    (∀ ps : List Param, sizeOf ps ≤ bound → Smaller bound (ps.map .param)) ∧
    (∀ ps : List TypeParam, sizeOf ps ≤ bound → Smaller bound (ps.map .typeParam)) ∧
    (∀ ss : List Stmt, sizeOf ss ≤ bound → Smaller bound (ss.map .stmt)) ∧
    (∀ hs : List Handler, sizeOf hs ≤ bound → Smaller bound (hs.map .handler)) ∧
    ∀ cs : List MatchCase, sizeOf cs ≤ bound → Smaller bound (cs.map .case) := by
  refine ⟨?_, ?_, ?_, ?_, ?_, ?_⟩
  all_goals exact fun _ => smaller_map fun _ => Nat.le_refl _

theorem smaller_keywords {keywords : List KeywordArg} (h : sizeOf keywords ≤ bound) :
    Smaller bound (keywords.map (.expr ·.value)) := by
  refine smaller_map (fun keyword => ?_) h
  cases keyword
  simp [Node.size]

theorem smaller_option {e : Option Expr} (h : sizeOf e ≤ bound) :
    Smaller bound (e.toList.map .expr) := by
  cases e with
  | none => simp
  | some e =>
    rw [Option.some.sizeOf_spec] at h
    have hlt : sizeOf e < bound := by omega
    simpa [Node.size] using hlt

theorem smaller_items {items : List DictItem} (h : sizeOf items ≤ bound) :
    Smaller bound ((items.flatMap DictItem.exprs).map .expr) := by
  induction items with
  | nil => simp
  | cons item items ih =>
    obtain ⟨key, value⟩ := item
    simp only [List.cons.sizeOf_spec, DictItem.mk.sizeOf_spec] at h
    simp (disch := omega) [DictItem.exprs, smaller_option, ih, Node.size]
    omega

theorem smaller_clauses {clauses : List Comprehension} (h : sizeOf clauses ≤ bound) :
    Smaller bound ((clauses.flatMap Comprehension.exprs).map .expr) := by
  induction clauses with
  | nil => simp
  | cons clause clauses ih =>
    obtain ⟨target, iter, conditions, isAsync⟩ := clause
    simp only [List.cons.sizeOf_spec, Comprehension.mk.sizeOf_spec] at h
    simp (disch := omega) [Comprehension.exprs, smaller_nodes, ih, Node.size]
    omega

theorem smaller_withItems {items : List WithItem} (h : sizeOf items ≤ bound) :
    Smaller bound ((items.flatMap WithItem.exprs).map .expr) := by
  induction items with
  | nil => simp
  | cons item items ih =>
    obtain ⟨context, vars⟩ := item
    simp only [List.cons.sizeOf_spec, WithItem.mk.sizeOf_spec] at h
    simp (disch := omega) [WithItem.exprs, smaller_option, ih, Node.size]
    omega

end

theorem Expr.children_smaller (e : Expr) : Smaller (sizeOf e) e.children := by
  cases e
  all_goals
    simp (disch := omega) [Expr.children, Node.size, smaller_nodes, smaller_keywords,
      smaller_option, smaller_items, smaller_clauses]
  all_goals omega

theorem Stmt.children_smaller (s : Stmt) : Smaller (sizeOf s) s.children := by
  cases s with
  | function span definition =>
    cases definition
    simp (disch := omega) [Stmt.children, smaller_nodes, smaller_option]
  | class_ span definition =>
    cases definition
    simp (disch := omega) [Stmt.children, smaller_nodes, smaller_keywords]
  | _ =>
    simp (disch := omega) [Stmt.children, Node.size, smaller_nodes, smaller_option,
      smaller_withItems]
    try omega

/-- The nodes inside a node are smaller. -/
theorem Node.children_smaller (n : Node) : Smaller n.size n.children := by
  cases n with
  | stmt s => exact s.children_smaller
  | expr e => exact e.children_smaller
  | param p | typeParam p =>
    cases p
    simp (disch := omega) [Node.children, Node.size, smaller_option]
  | handler h =>
    cases h
    simp (disch := omega) [Node.children, Node.size, smaller_option, smaller_nodes]
  | case c =>
    cases c
    simp (disch := omega) [Node.children, Node.size, smaller_option, smaller_nodes]
    omega

theorem Node.Has.size_le (h : n.Has m) : m.size ≤ n.size := by
  induction h with
  | self => exact Nat.le_refl _
  | @child n m inner hinner _ ih =>
    have hlt := n.children_smaller inner hinner
    omega

/-! ### Statements in order -/

theorem allStmts_append (xs ys : List Stmt) : allStmts (xs ++ ys) = allStmts xs ++ allStmts ys := by
  induction xs with
  | nil => simp [allStmts]
  | cons x xs ih => simp [allStmts, ih]

/-- A statement comes before everything in its blocks. -/
theorem Stmt.withInner_eq (s : Stmt) : s.withInner = s :: allStmts s.blocks.flatten := by
  have hhandlers (handlers : List Handler) :
      handlerStmts handlers = allStmts (handlers.map (·.body)).flatten := by
    induction handlers with
    | nil => simp [handlerStmts, allStmts]
    | cons h handlers ih =>
      obtain ⟨type, isStar, name, body, span⟩ := h
      simp [handlerStmts, ih, allStmts_append]
  have hcases (cases : List MatchCase) :
      caseStmts cases = allStmts (cases.map (·.body)).flatten := by
    induction cases with
    | nil => simp [caseStmts, allStmts]
    | cons c cases ih =>
      obtain ⟨pattern, binding, guard, body, span⟩ := c
      simp [caseStmts, ih, allStmts_append]
  cases s with
  | try_ span body handlers orElse finalBody =>
    simp [Stmt.withInner, Stmt.blocks, hhandlers, allStmts_append, List.append_assoc]
  | match_ span subject cases => simp [Stmt.withInner, Stmt.blocks, hcases]
  | function span definition =>
    obtain ⟨name, typeParams, params, returns, body, decorators, isAsync⟩ := definition
    simp [Stmt.withInner, Stmt.blocks, FunctionDef.innerStmts]
  | class_ span definition =>
    obtain ⟨name, typeParams, bases, keywords, body, decorators⟩ := definition
    simp [Stmt.withInner, Stmt.blocks, ClassDef.innerStmts]
  | _ => simp [Stmt.withInner, Stmt.blocks, allStmts, allStmts_append]

/-- The statements in the blocks of a statement are below nodes directly inside it. -/
theorem Stmt.below_of_mem_blocks (h : t ∈ s.blocks.flatten) :
    ∃ child ∈ s.children, child.Has (.stmt t) := by
  obtain ⟨block, hblock, ht⟩ := List.mem_flatten.mp h
  cases s with
  | if_ | while_ | for_ =>
    simp only [Stmt.blocks, List.mem_cons, List.not_mem_nil, or_false] at hblock
    refine ⟨.stmt t, ?_, .self⟩
    rcases hblock with rfl | rfl <;> simp [Stmt.children, ht]
  | try_ span body handlers orElse finalBody =>
    simp only [Stmt.blocks, List.mem_cons, List.mem_append, List.mem_map, List.not_mem_nil,
      or_false] at hblock
    rcases hblock with (rfl | ⟨handler, hmem, rfl⟩) | rfl | rfl
    case inl.inr =>
      have hhandler : (Node.handler handler).Has (.stmt t) :=
        .child (by simp [Node.children, ht]) .self
      exact ⟨.handler handler, by simp [Stmt.children, hmem], hhandler⟩
    all_goals exact ⟨.stmt t, by simp [Stmt.children, ht], .self⟩
  | match_ span subject cases =>
    obtain ⟨clause, hmem, rfl⟩ := List.mem_map.mp hblock
    have hclause : (Node.case clause).Has (.stmt t) := .child (by simp [Node.children, ht]) .self
    exact ⟨.case clause, by simp [Stmt.children, hmem], hclause⟩
  | with_ | function | class_ =>
    rw [List.mem_singleton.mp hblock] at ht
    exact ⟨.stmt t, by simp [Stmt.children, ht], .self⟩
  | _ => simp [Stmt.blocks] at hblock

/-- A statement in a block is smaller than the statement that has the block. -/
theorem Stmt.sizeOf_lt_of_mem_blocks (h : t ∈ s.blocks.flatten) : sizeOf t < sizeOf s := by
  obtain ⟨child, hchild, hhas⟩ := Stmt.below_of_mem_blocks h
  exact Nat.lt_of_le_of_lt hhas.size_le (s.children_smaller child hchild)

theorem Stmt.has_of_mem_blocks (h : t ∈ s.blocks.flatten) : (Node.stmt s).Has (.stmt t) := by
  obtain ⟨child, hchild, hhas⟩ := Stmt.below_of_mem_blocks h
  exact .child hchild hhas

theorem Node.Has.trans {k : Node} (hm : n.Has m) (hk : m.Has k) : n.Has k := by
  induction hm with
  | self => exact hk
  | child hinner _ ih => exact .child hinner (ih hk)

/-- Below a node whose tree is placed right everything lies within it. -/
theorem Node.Has.within (hm : n.Has m)
    (hplaced : ∀ k, n.Has k → k.Placed cs) : m.span.Within n.span := by
  induction hm with
  | self => exact ⟨Nat.le_refl _, Nat.le_refl _⟩
  | @child n m inner hinner hm ih =>
    have hm := ih fun k hk => hplaced k (.child hinner hk)
    have hinner := (hplaced n .self).children inner hinner
    exact ⟨Nat.le_trans hinner.start hm.start, Nat.le_trans hm.stop hinner.stop⟩

/-- Some statements begin one after another. -/
def Ascend (stmts : List Stmt) : Prop :=
  stmts.Pairwise fun a b => a.span.start < b.span.start

/-- If each statement of a block ascends and stays within itself, so does the block. -/
theorem allStmts_ascend {stmts : List Stmt} (hsequence : InSequence stmts)
    (hinner : ∀ s ∈ stmts, Ascend s.withInner ∧
      ∀ t ∈ s.withInner, s.span.start ≤ t.span.start ∧ t.span.start < s.span.stop) :
    Ascend (allStmts stmts) ∧ ∀ t ∈ allStmts stmts, ∃ s ∈ stmts,
      s.span.start ≤ t.span.start ∧ t.span.start < s.span.stop := by
  induction stmts with
  | nil => simp [allStmts, Ascend]
  | cons s stmts ih =>
    obtain ⟨hbefore, hsequence⟩ := List.pairwise_cons.mp hsequence
    obtain ⟨hascend, hwithin⟩ := hinner s (by simp)
    obtain ⟨hlater, hafter⟩ := ih hsequence fun t ht => hinner t (by simp [ht])
    rw [allStmts]
    refine ⟨List.pairwise_append.mpr ⟨hascend, hlater, fun t ht u hu => ?_⟩, fun t ht => ?_⟩
    · obtain ⟨later, hmem, hle, -⟩ := hafter u hu
      have hstop := hbefore later hmem
      have hlt := (hwithin t ht).2
      omega
    · rcases List.mem_append.mp ht with ht | ht
      · exact ⟨s, by simp, hwithin t ht⟩
      · obtain ⟨later, hmem, hrange⟩ := hafter t ht
        exact ⟨later, by simp [hmem], hrange⟩

/-- A statement with all that is in its blocks ascends, and stays within itself. -/
theorem Stmt.withInner_ascend (s : Stmt) (hplaced : ∀ m, (Node.stmt s).Has m → m.Placed cs) :
    Ascend s.withInner ∧
      ∀ t ∈ s.withInner, s.span.start ≤ t.span.start ∧ t.span.start < s.span.stop := by
  have hself := hplaced _ .self
  have hinner (t : Stmt) (ht : t ∈ s.blocks.flatten) :=
    Stmt.withInner_ascend t fun m hm => hplaced m ((Stmt.has_of_mem_blocks ht).trans hm)
  obtain ⟨hascend, hrange⟩ := allStmts_ascend hself.sequence hinner
  -- What is in the blocks begins behind the statement and before its end.
  have hbehind (t : Stmt) (ht : t ∈ allStmts s.blocks.flatten) :
      s.span.start < t.span.start ∧ t.span.start < s.span.stop := by
    obtain ⟨owner, howner, hle, hlt⟩ := hrange t ht
    have hstart := hself.behind owner howner
    have hstop := ((Stmt.has_of_mem_blocks howner).within hplaced).stop
    simp only [Node.span] at hstart hstop
    omega
  rw [Stmt.withInner_eq]
  refine ⟨List.pairwise_cons.mpr ⟨fun t ht => (hbehind t ht).1, hascend⟩, fun t ht => ?_⟩
  rcases List.mem_cons.mp ht with rfl | ht
  · exact ⟨Nat.le_refl _, hself.nonempty⟩
  · exact ⟨Nat.le_of_lt (hbehind t ht).1, (hbehind t ht).2⟩
termination_by sizeOf s
decreasing_by exact Stmt.sizeOf_lt_of_mem_blocks ht

end Scrutiny
