/-
A failure is at a position that the text has.

Whatever is wrong with a text, the error that is reported first starts at a boundary, and
moved back over trailing white space a boundary has a real line and column.  For errors of
the tokens and of the grammar that is where the tokens stand.  What cannot be assigned to
is found in the tree, and there every offset is the end of some token: if all ends of
tokens are left in place and the other offsets moved anywhere, the tree does not change
(`Grammar.moduleUpTo_fixed`), so it has no other offsets.
-/
import Scrutiny.Proofs.Token.Boundaries
import Scrutiny.Proofs.Tree.Locality

namespace Scrutiny

/-! ### Offsets of a tree -/

/-- A module has no offsets but those of its tokens. -/
theorem Grammar.moduleUpTo_fixed {tokens : List Lexeme} (hstretch : Stretch 0 false tokens)
    {u : Nat → Nat} (hu : ∀ x ∈ tokens, x.span.respan u = x.span) {module : Module} {last : Cursor}
    (hread : (moduleUpTo tokens.length (.start tokens)).result = some (module, last)) :
    module.body.map (Stmt.respan u) = module.body.map (Stmt.respan id) := by
  -- Nothing is read, and then the same stream with its offsets compared in two ways.
  have halike : List.Forall₂ (Pairing.Alike (.moved id u 0)) tokens tokens :=
    List.forall₂_same.mpr fun x hx => ⟨rfl, (hu x hx).symm⟩
  have hfresh : ∀ x ∈ tokens.head?, x.token.continuesStmt = false :=
    moduleUpTo_fresh (n := tokens.length) fun hnone => by simp [hnone] at hread
  obtain ⟨stmts, hbare, hjoined⟩ := moduleUpTo_joined .moved rfl .done hstretch .nil halike
    hfresh (congrArg Reply.result (moduleUpTo_nil 0))
  obtain rfl : stmts = [] := by simpa using hbare
  obtain ⟨body, last', hagain, hsame⟩ := hjoined.reads module last hread
  rw [List.nil_append, hread] at hagain
  obtain ⟨rfl, -⟩ : module = ⟨body⟩ ∧ last = last' := by simpa using hagain
  exact hsame.symm

/-- Offsets can be moved to boundaries with those that are boundaries left in place. -/
theorem exists_toBoundary (cs : List Char) :
    ∃ u : Nat → Nat, (∀ k, Boundary cs (u k)) ∧ ∀ k, Boundary cs k → u k = k := by
  classical
  refine ⟨fun k => if Boundary cs k then k else 0, fun k => ?_, fun k hk => if_pos hk⟩
  by_cases hk : Boundary cs k
  · simp only [if_pos hk]
    exact hk
  · simp only [if_neg hk]
    exact .zero cs

/-! ### Failures -/

variable {source : String} {error : SyntaxError}

/-- The empty text has a tree. -/
theorem Fails.nonempty (h : Fails source error) : source.toList ≠ [] := by
  intro hnil
  obtain rfl : source = "" := String.toList_eq_nil_iff.mp hnil
  have hempty : (buildTree "").toOption.isSome = true := by decide +kernel
  rw [h.buildTree_eq] at hempty
  simp [Except.toOption] at hempty

/-- **What is reported first starts at a boundary.** -/
theorem Fails.boundary (h : Fails source error) : Boundary source.toList error.span.start := by
  cases h with
  | token htokens => exact tokenize_error_boundary htokens
  | @grammar stream far htokens hread =>
    unfold Grammar.errorAt
    cases hfound : stream.tokens[far]? with
    | none => exact Or.inl (Nat.le_refl _)
    | some lexeme => exact (tokenize_onBoundaries htokens lexeme (List.mem_of_getElem? hfound)).1
  | @target stream module last found htokens hread hfound =>
    obtain ⟨u, hboundary, hfixed⟩ := exists_toBoundary source.toList
    have htokensFixed : ∀ x ∈ stream.tokens, x.span.respan u = x.span := by
      intro x hx
      obtain ⟨hstart, hstop⟩ := tokenize_onBoundaries htokens x hx
      rw [Span.respan, hfixed _ hstart, hfixed _ hstop]
    have hmoved := Module.targetFault?_moved
      (Grammar.moduleUpTo_fixed (tokenize_stretch htokens) htokensFixed hread)
    rw [show (⟨module.body⟩ : Module) = module from rfl, hfound, Option.map_some,
      Option.some.injEq] at hmoved
    have hstart : found.2.start = u found.2.start := congrArg (fun f => f.2.start) hmoved
    show Boundary source.toList found.2.start
    rw [hstart]
    exact hboundary _

/-- **A failure is at a position that the text has.** -/
theorem Fails.position_real (h : Fails source error) :
    (SyntaxFailure.ofError source.toList (.ofText source.toList) error).position.Real
      source.toList :=
  LineTable.position_trimEnd_real h.nonempty h.boundary

end Scrutiny
