/-
The shape of a syntax tree.

The types of the tree allow more than can be written: a loop without a body, a comparison
with nothing to compare to, a slice where no subscript is.  `Node.Shaped` says of one node
that it is none of these.  It has two parts.  The form of a node (`Node.Form`) is about the
lists it has and what stands in them.  The place of slices (`Node.SlicesInPlace`) is about
its children: a slice is the index of a subscript, or an element of a tuple that is one.

A tree is well formed if all of its nodes have the right shape.  To put a node on top of
well-formed ones, its form has to be right and no slice may be among its children
(`Node.made_of_sound`); subscripts and the tuples in them are the exception.

A string literal says of its parts whether they are bytes and which names they read.  The
types allow it to say anything; one that was written says what its parts do
(`Node.AsWritten`), and that is passed on along with the shape.
-/
import Scrutiny.Proofs.Syntax.Nodes

namespace Scrutiny

variable {n : Node}

/-! ### Forms -/

/-- A `*` among imported names is alone and has no other name. -/
def StarAlone (names : List Alias) : Prop :=
  ∀ a ∈ names, a.name = "*" → names = [a] ∧ a.asName = none

/-- The form of an expression that was written. -/
def Expr.Form : Expr → Prop
  | .string _ literal => literal.parts ≠ []
  | .boolOp _ op values =>
    2 ≤ values.length ∧ ∀ span inner, values.head? ≠ some (.boolOp span op inner)
  | .compare _ _ ops comparators => ops.length = comparators.length ∧ ops ≠ []
  | .lambda _ params _ => ∀ p ∈ params, p.hint = none
  | .set _ elts => elts ≠ []
  | .listComp _ _ clauses | .setComp _ _ clauses | .generator _ _ clauses
  | .dictComp _ _ _ clauses => clauses ≠ []
  | _ => True

/-- The form of a statement that was written. -/
def Stmt.Form : Stmt → Prop
  | .assign _ targets _ | .delete_ _ targets => targets ≠ []
  | .global_ _ names | .nonlocal_ _ names => names ≠ []
  | .import_ _ names => names ≠ []
  | .importFrom _ module level names =>
    names ≠ [] ∧ (0 < level ∨ module ≠ none) ∧ StarAlone names
  | .if_ _ _ body _ | .while_ _ _ body _ | .for_ _ _ _ body _ _ | .with_ _ _ body _ => body ≠ []
  | .try_ _ body handlers orElse finalBody =>
    body ≠ [] ∧ (handlers ≠ [] ∨ finalBody ≠ []) ∧ (handlers = [] → orElse = [])
  | .match_ _ _ cases => cases ≠ []
  | .function _ definition => definition.body ≠ []
  | .class_ _ definition => definition.body ≠ []
  | _ => True

/-- A parameter that takes all arguments left over has no default. -/
def Param.Form (p : Param) : Prop :=
  p.kind = .varArgs ∨ p.kind = .kwArgs → p.default = none

/-- The form of a node that was written. -/
def Node.Form : Node → Prop
  | .stmt s => s.Form
  | .expr e => e.Form
  | .param p => p.Form
  | .typeParam _ => True
  | .handler h => h.body ≠ []
  | .case c => c.body ≠ []

/-! ### Slices -/

/-- Whether an expression is a slice. -/
def Expr.isSlice : Expr → Bool
  | .slice .. => true
  | _ => false

/-- Whether an expression may only be the index of a subscript: a slice, or a tuple with
one in it. -/
def Expr.isIndex : Expr → Bool
  | .slice .. => true
  | .tuple _ elts => elts.any Expr.isSlice
  | _ => false

/-- Whether a node may only be the index of a subscript. -/
def Node.isIndex : Node → Bool
  | .expr e => e.isIndex
  | _ => false

/-- What may only be an index is the index of a subscript; the slices of a tuple are
elements of it. -/
def Node.SlicesInPlace : Node → Prop
  | .expr (.subscript _ value _) => value.isIndex = false
  | .expr (.tuple _ elts) => ∀ e ∈ elts, e.isSlice = false → e.isIndex = false
  | n => ∀ child ∈ n.children, child.isIndex = false

/-- A node has the shape of one that was written. -/
structure Node.Shaped (n : Node) : Prop where
  form : n.Form
  slices : n.SlicesInPlace

/-! ### Well-formed trees -/

/-- A node and all below it have the right shape. -/
def Node.WellFormed (n : Node) : Prop :=
  ∀ m, n.Has m → m.Shaped

/-- What a string literal says of its parts is what is written in them. -/
def Node.AsWritten : Node → Prop
  | .expr (.string _ literal) => literal = .ofParts literal.parts
  | _ => True

/-- Whether a node is a string literal. -/
def Node.isString : Node → Bool
  | .expr (.string ..) => true
  | _ => false

theorem Node.asWritten_of_isString (h : n.isString = false) : n.AsWritten := by
  unfold Node.AsWritten
  split
  · cases h
  · trivial

/-- A node that may stand somewhere: well formed, with all strings as they are written. -/
structure Node.Made (n : Node) : Prop where
  wellFormed : n.WellFormed
  strings : ∀ m, n.Has m → m.AsWritten

/-- A node that may stand anywhere. -/
structure Node.Sound (n : Node) : Prop extends n.Made where
  notIndex : n.isIndex = false

theorem Node.WellFormed.of_children (h : n.Shaped)
    (hchildren : ∀ child ∈ n.children, child.WellFormed) : n.WellFormed := by
  intro m hm
  cases hm with
  | self => exact h
  | child hinner hm => exact hchildren _ hinner m hm

theorem Node.Made.of_children (h : n.Shaped) (hstring : n.AsWritten)
    (hchildren : ∀ child ∈ n.children, child.Made) : n.Made := by
  refine ⟨.of_children h fun child hchild => (hchildren child hchild).wellFormed, fun m hm => ?_⟩
  cases hm with
  | self => exact hstring
  | child hinner hm => exact (hchildren _ hinner).strings m hm

/-- A node of the right form may stand somewhere if all that is directly inside it may stand
anywhere. -/
theorem Node.made_of_sound (hform : n.Form) (hstring : n.AsWritten)
    (hchildren : ∀ child ∈ n.children, child.Sound) : n.Made := by
  refine .of_children ⟨hform, ?_⟩ hstring fun child hchild => (hchildren child hchild).toMade
  have hnone : ∀ child ∈ n.children, child.isIndex = false :=
    fun child hchild => (hchildren child hchild).notIndex
  unfold Node.SlicesInPlace
  split
  · exact hnone (.expr _) (by simp [Node.children, Expr.children])
  · intro e he _
    exact hnone (.expr e) (by simp [Node.children, Expr.children, he])
  · exact hnone

/-- All of some nodes are well formed and may stand anywhere. -/
def AllSound (ns : List Node) : Prop :=
  ∀ n ∈ ns, n.Sound

section

variable {n : Node} {ns ms : List Node}

@[simp] theorem allSound_nil : AllSound [] := by
  simp [AllSound]

@[simp] theorem allSound_cons : AllSound (n :: ns) ↔ n.Sound ∧ AllSound ns := by
  simp [AllSound]

@[simp] theorem allSound_append : AllSound (ns ++ ms) ↔ AllSound ns ∧ AllSound ms := by
  simp only [AllSound, List.forall_mem_append]

@[simp] theorem allSound_map {α : Type} {f : α → Node} {as : List α} :
    AllSound (as.map f) ↔ ∀ a ∈ as, (f a).Sound := by
  simp [AllSound]

end

/-- A new node on top of some that may stand anywhere. -/
theorem Node.Sound.of_children (hform : n.Form) (hchildren : AllSound n.children)
    (hplain : (n.isIndex || n.isString) = false) : n.Sound := by
  obtain ⟨hindex, hstring⟩ := Bool.or_eq_false_iff.mp hplain
  exact ⟨Node.made_of_sound hform (Node.asWritten_of_isString hstring) hchildren, hindex⟩

/-- What is directly inside a node that may stand anywhere may do so too, unless it is the
index of a subscript. -/
theorem Node.Sound.children (h : n.Sound)
    (hother : ∀ span value index, n ≠ .expr (.subscript span value index)) :
    AllSound n.children := by
  intro child hchild
  refine ⟨⟨fun m hm => h.wellFormed m (.child hchild hm),
    fun m hm => h.strings m (.child hchild hm)⟩, ?_⟩
  have hslices := (h.wellFormed n .self).slices
  unfold Node.SlicesInPlace at hslices
  split at hslices
  · exact (hother _ _ _ rfl).elim
  · rename_i span elts
    obtain ⟨e, he, rfl⟩ := List.mem_map.mp hchild
    refine hslices e he ?_
    simpa using List.any_eq_false.mp h.notIndex e he
  · exact hslices child hchild

/-- An expression that is well formed and may stand anywhere. -/
abbrev Expr.Sound (e : Expr) : Prop := (Node.expr e).Sound

/-- An expression with nothing inside it. -/
theorem Expr.sound_leaf {e : Expr} (hform : e.Form) (hchildren : e.children = [])
    (hstring : (Node.expr e).AsWritten) (hindex : e.isIndex = false) : e.Sound := by
  refine ⟨Node.made_of_sound hform hstring ?_, hindex⟩
  intro child hchild
  rw [Node.children, hchildren] at hchild
  cases hchild

theorem Expr.sound_tuple {span : Span} {elts : List Expr} (h : ∀ e ∈ elts, e.Sound) :
    (Expr.tuple span elts).Sound := by
  refine .of_children trivial (by simpa [Node.children, Expr.children] using h) ?_
  refine Bool.or_eq_false_iff.mpr ⟨List.any_eq_false.mpr fun e he hslice => ?_, rfl⟩
  have hindex := (h e he).notIndex
  cases e <;> simp_all [Expr.isSlice, Node.isIndex, Expr.isIndex]

/-- A subscript takes any index. -/
theorem Expr.sound_subscript {span : Span} {value index : Expr} (hvalue : value.Sound)
    (hindex : (Node.expr index).Made) : (Expr.subscript span value index).Sound := by
  refine ⟨.of_children ⟨trivial, hvalue.notIndex⟩ trivial ?_, rfl⟩
  simpa [Node.children, Expr.children] using ⟨hvalue.toMade, hindex⟩

end Scrutiny
