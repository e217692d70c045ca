/-
A traversal of a tree stays inside it.

What passes from a node to the nodes directly inside it (`Hereditary`) passes to
everything that a traversal of the tree meets, for a traversal only ever goes from a node
to its parts.  So every visit is to a node of the tree (`blockVisits_inside`), and so is
every statement in the list of all statements (`Module.has_of_mem_allStmts`).
-/
import Scrutiny.Proofs.Syntax.Traversal
import Scrutiny.Syntax.Target

namespace Scrutiny

/-- A property of nodes that the nodes inside inherit. -/
def Hereditary (Q : Node → Prop) : Prop :=
  ∀ n, Q n → n.children.Forall Q

theorem Module.hereditary_has (module : Module) : Hereditary module.Has := by
  rintro n ⟨s, hs, hn⟩
  refine List.forall_iff_forall_mem.mpr fun m hm => ?_
  exact ⟨s, hs, hn.trans (.child hm .self)⟩

variable {Q : Node → Prop}

/-- What the nodes below inherit. -/
theorem Hereditary.of_has (hQ : Hereditary Q) {n m : Node} (hn : Q n) (h : n.Has m) : Q m := by
  induction h with
  | self => exact hn
  | child hinner _ ih => exact ih (List.forall_iff_forall_mem.mp (hQ _ hn) _ hinner)

/-! ### Visits -/

theorem blockVisits_inside (hQ : Hereditary Q) (into : Stmt → Bool) (stmts : List Stmt)
    (h : (stmts.map Node.stmt).Forall Q) : (blockVisits into stmts).Forall (Q ∘ Visit.node) := by
  rw [List.forall_iff_forall_mem] at h ⊢
  intro v hv
  rw [← trail_block] at hv
  obtain ⟨first, hfirst, hv⟩ := List.mem_flatMap.mp hv
  obtain ⟨s, hs, rfl⟩ := List.mem_map.mp hfirst
  refine Visit.forall_trail ?_ ?_ into (.enter s) (h _ (List.mem_map_of_mem hs)) v hv
  · intro v hv w hw
    exact hQ.of_has hv (Visit.has_of_mem_inner hw)
  · intro v hv w hw
    show Q w.node
    rw [Visit.node_last hw]
    exact hv

/-! ### Names of targets -/

/-- A node with the property starts at an offset. -/
def StartsAt (Q : Node → Prop) (offset : Nat) : Prop :=
  ∃ n, Q n ∧ n.span.start = offset

mutual

theorem Expr.targetNames_inside (hQ : Hereditary Q) : ∀ e : Expr, Q (.expr e) →
    e.targetNames.Forall (StartsAt Q ·.2)
  | .name span id, he => ⟨_, he, rfl⟩
  | .tuple _ elts, he | .list _ elts, he => by
      simpa [Expr.targetNames] using targetNamesAll_inside hQ elts (hQ _ he)
  | .starred _ value, he => by
      simpa [Expr.targetNames] using Expr.targetNames_inside hQ value (hQ _ he)
  | .constant .., _ | .string .., _ | .boolOp .., _ | .binOp .., _ | .unaryOp .., _ | .compare .., _
  | .lambda .., _ | .conditional .., _ | .named .., _ | .call .., _ | .member .., _
  | .subscript .., _ | .slice .., _ | .set .., _ | .dict .., _ | .listComp .., _ | .setComp .., _
  | .generator .., _ | .dictComp .., _ | .await .., _ | .yield .., _ | .yieldFrom .., _ => by
    simp [Expr.targetNames]

theorem targetNamesAll_inside (hQ : Hereditary Q) : ∀ es : List Expr, (es.map Node.expr).Forall Q →
    (targetNamesAll es).Forall (StartsAt Q ·.2)
  | [], _ => by simp [targetNamesAll]
  | e :: es, h => by
      obtain ⟨he, hes⟩ := (List.forall_cons ..).mp h
      simp only [targetNamesAll, List.forall_append]
      exact ⟨Expr.targetNames_inside hQ e he, targetNamesAll_inside hQ es hes⟩

end

/-! ### All statements -/

theorem mem_allStmts {t : Stmt} {stmts : List Stmt} :
    t ∈ allStmts stmts ↔ ∃ s ∈ stmts, t ∈ s.withInner := by
  induction stmts with
  | nil => simp [allStmts]
  | cons s stmts ih => simp [allStmts, ih]

theorem Stmt.has_of_mem_withInner {s t : Stmt} (h : t ∈ s.withInner) :
    (Node.stmt s).Has (.stmt t) := by
  rw [Stmt.withInner_eq] at h
  rcases List.mem_cons.mp h with rfl | h
  · exact .self
  · obtain ⟨owner, howner, ht⟩ := mem_allStmts.mp h
    exact (Stmt.has_of_mem_blocks howner).trans (Stmt.has_of_mem_withInner ht)
termination_by sizeOf s
decreasing_by exact Stmt.sizeOf_lt_of_mem_blocks howner

theorem Module.has_of_mem_allStmts {module : Module} {s : Stmt} (h : s ∈ allStmts module.body) :
    module.Has (.stmt s) := by
  obtain ⟨owner, howner, hs⟩ := mem_allStmts.mp h
  exact ⟨owner, howner, Stmt.has_of_mem_withInner hs⟩

end Scrutiny
