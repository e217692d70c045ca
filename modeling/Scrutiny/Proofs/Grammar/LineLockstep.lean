/-
Lines are read in lockstep up to a seam.

A line inside a block keeps pace, and so does one at the top where nothing follows
the seam.  Where the first stream ends at the seam and the second goes on, decorators
right before it would be taken for those of what follows: there the first run fails.
So a line at the top keeps pace unless it starts with a decorator, and even then the
second run follows the first where that succeeds (`lineUpTo_shadows`).
-/
import Scrutiny.Proofs.Grammar.StmtLockstep

namespace Scrutiny

/-- What is left of two streams before the seam, not at a decorator. -/
def Seam.Bare (m : Seam) (P : Pairing) (depth : Nat) : Linkage := fun xs ys =>
  m.Before P depth xs ys ∧ ∀ x ∈ xs.head?, x.token ≠ .symbol .atSign

namespace Grammar

open Scrutiny.Parser (Lockstep Shadows Rejects)

section

variable {m : Seam} {P : Pairing} {B U : Nat → Linkage} {n depth : Nat} {r r' : ExprRules}
  {suite suite' : Parser (List Stmt)}

/-! ### Definitions and their decorators -/

/-- One decorator is a line. -/
theorem decorator_lockstep (h : Paced P B U n r r' suite suite') :
    Lockstep P n true (B depth) (U depth)
      (do
        Parser.symbol .atSign
        let decorator ← r.expr
        Parser.token .newline
        return decorator)
      (do
        Parser.symbol .atSign
        let decorator ← r'.expr
        Parser.token .newline
        return decorator) (P.Same Recast.expr) :=
  .andThen (h.rules depth).symbol fun _ _ _ => .bind (h.rules depth).expr fun _ _ hvalue =>
    .bind h.newline fun _ _ _ => .pure hvalue

/-- Definitions keep pace where another line may come behind each. -/
theorem definition_lockstep (h : Paced P B U n r r' suite suite')
    (hU : ∀ xs ys, U depth xs ys → B depth xs ys) :
    Lockstep P n true (B depth) (U depth) (definition r suite) (definition r' suite')
      (P.Builds Recast.stmt) :=
  .bind
    (.many ((decorator_lockstep h).conseq (Nat.le_refl n) id (fun _ _ h => h) hU fun _ _ h => h))
    fun _ _ hds => undecorated_lockstep h hds

variable (h : Paced P (m.Before P) (m.UpTo P) n r r' suite suite')

include h

/-- Definitions keep pace where both streams end at the seam. -/
theorem definition_last (hleft : m.left = []) (hright : m.right = []) :
    Lockstep P n true (m.Before P 0) (m.UpTo P 0) (definition r suite) (definition r' suite')
      (P.Builds Recast.stmt) := by
  have hupTo {α : Type} {k : Token → Bool} {p q : Parser α} {R : α → α → Prop}
      (hpq : Lockstep P n true (m.Before P 0) (m.UpTo P 0) p q R) (hp : Rejects k p)
      (hq : Rejects k q) : Lockstep P n true (m.UpTo P 0) (m.UpTo P 0) p q R :=
    hpq.upTo hp hq (by simp [hleft]) (by simp [hright])
  have hread : Lockstep P n true (m.UpTo P 0) (m.UpTo P 0) (definition r suite)
      (definition r' suite') (P.Builds Recast.stmt) :=
    .bind (.many (hupTo (k := (· != .symbol .atSign)) (decorator_lockstep h) (.bind (.symbol rfl))
      (.bind (.symbol rfl)))) fun ds ds' hds =>
      hupTo (undecorated_lockstep h hds) (undecorated_rejects ds) (undecorated_rejects ds')
  exact hread.conseq (Nat.le_refl n) id (fun _ _ => .of_before) (fun _ _ h => h) fun _ _ h => h

/-- Definitions keep pace where there are no decorators. -/
theorem definition_bare : Lockstep P n true (m.Bare P depth) (m.UpTo P depth) (definition r suite)
      (definition r' suite') (P.Builds Recast.stmt) := by
  have hnone : Lockstep P n true (m.Bare P depth) (fun _ _ => False)
      (Parser.token (.symbol .atSign)) (Parser.token (.symbol .atSign)) Eq := by
    refine .satisfy fun xs ys hbare => Or.inl ?_
    obtain ⟨⟨line, x, xs', y, ys', rfl, rfl, hx, -, -⟩, hhead⟩ := hbare
    have hne := hhead x rfl
    refine ⟨?_, ?_⟩
    · simpa [Lockstep.Refuses] using hne
    · simpa [Lockstep.Refuses, ← hx.token_eq_iff (t := .symbol .atSign) (by simp)] using hne
  refine .bind (.many (g := Recast.expr) (.andThen (e := true) hnone fun _ _ _ => .absurd))
    fun ds ds' hds => ?_
  exact (undecorated_lockstep h hds).conseq (Nat.le_refl n) id (fun _ _ h => h.1) (fun _ _ h => h)
    fun _ _ h => h

/-- A definition of a stream that ends at the seam is read in the other as well. -/
theorem definition_shadows (hleft : m.left = []) :
    Shadows P n (m.Before P 0) (m.UpTo P 0) (definition r suite) (definition r' suite')
      (P.Builds Recast.stmt) := by
  intro c d hn hS hindex hsome
  have hend (kind : Token → Bool) (c : Cursor) (hc : c.rest = []) : c.Faces kind := by
    simp [Cursor.Faces, hc]
  refine Shadows.manyWithin_bind (E := (· = [])) (decorator_lockstep h) (fun xs ys hupTo => ?_)
    (fun as bs habs => undecorated_lockstep h habs) (fun c hc => ?_) (fun c as hc => ?_)
    c.rest d.rest (Nat.le_refl _) (Nat.le_refl _) hn hS hindex hsome
  · rcases hupTo.cases with hbefore | ⟨-, hxs, -⟩
    · exact Or.inl hbefore
    · exact Or.inr (hxs.trans hleft)
  · have hrejects : Rejects (· != .symbol .atSign) (do
        Parser.symbol .atSign
        let decorator ← r.expr
        Parser.token .newline
        return decorator) := .bind (.symbol rfl)
    rw [hrejects (hend _ c hc)]
  · rw [undecorated_rejects as (hend _ c hc)]

/-! ### Lines -/

omit h

/-- The block or the rest of the line after a colon, with lines unrolled `k` times. -/
def suiteUpTo (r : ExprRules) (k : Nat) : Parser (List Stmt) := do
  Parser.symbol .colon
  block r (lineUpTo r k)

theorem lineUpTo_succ (r : ExprRules) (k : Nat) : lineUpTo r (k + 1)
    = ((compoundStmt r (suiteUpTo r k) >>= fun stmt => pure [stmt]) <|> simpleLine r) := rfl

/-- A line keeps pace if definitions do. -/
theorem line_lockstep {S : Linkage} (h : Paced P B U n r r' suite suite')
    (hS : ∀ xs ys, S xs ys → B depth xs ys)
    (hdefinition : Lockstep P n true S (U depth) (definition r suite) (definition r' suite')
      (P.Builds Recast.stmt)) : Lockstep P n true S (U depth)
      ((compoundStmt r suite >>= fun stmt => pure [stmt]) <|> simpleLine r)
      ((compoundStmt r' suite' >>= fun stmt => pure [stmt]) <|> simpleLine r')
      (P.Same fun m => List.map m.stmt) := by
  refine .orElse ?_ ?_
  · exact .andThen (compoundStmt_lockstep h hS hdefinition) fun _ _ hstmt => .pure (by simp [hstmt])
  · exact (simpleLine_lockstep h.toLayout (h.rules depth)).conseq (Nat.le_refl n) id hS
      (fun _ _ h => h) fun _ _ h => h

/-- A colon pays for one more turn of the rule for lines. -/
theorem suite_paced {line line' : Parser (List Stmt)} (hL : Linkage.Layout P B U)
    (hr : ∀ depth, r.Paired P (B depth) (n + 1) r')
    (hline : ∀ depth, Lockstep P n true (B (depth + 1)) (U (depth + 1)) line line'
      (P.Same fun m => List.map m.stmt)) :
    Paced P B U (n + 1) r r' (do Parser.symbol .colon; block r line)
      (do Parser.symbol .colon; block r' line') where
  toLayout := hL
  rules := hr
  suite depth := .step (hr depth).symbol fun _ _ _ =>
    block_lockstep hL ((hr depth).mono (Nat.le_succ n)) (hline depth)

theorem lineUpTo_block (hL : Linkage.Layout P B U) (hr : ∀ depth, r.Paired P (B depth) n r')
    {k k' : Nat} (hk : n ≤ k) (hk' : n ≤ k') (depth : Nat) :
    Lockstep P n true (B (depth + 1)) (U (depth + 1)) (lineUpTo r k) (lineUpTo r' k')
      (P.Same fun m => List.map m.stmt) := by
  induction n generalizing k k' depth with
  | zero => exact .zero
  | succ n ih =>
    obtain ⟨k, rfl⟩ : ∃ j, k = j + 1 := ⟨k - 1, by omega⟩
    obtain ⟨k', rfl⟩ : ∃ j, k' = j + 1 := ⟨k' - 1, by omega⟩
    have hpaced : Paced P B U (n + 1) r r' (suiteUpTo r k) (suiteUpTo r' k') :=
      suite_paced hL hr fun depth =>
        ih (fun depth => (hr depth).mono (Nat.le_succ n)) (by omega) (by omega) depth
    exact line_lockstep hpaced (fun _ _ h => h) (definition_lockstep hpaced hL.block)

/-- Unrolled often enough for the tokens there are, suites keep pace. -/
theorem suiteUpTo_paced_of_le (hP : P.Literal)
    (hr : ∀ depth, r.Paired P (m.Before P depth) (n + 1) r') {k k' : Nat} (hk : n ≤ k)
    (hk' : n ≤ k') :
    Paced P (m.Before P) (m.UpTo P) (n + 1) r r' (suiteUpTo r k) (suiteUpTo r' k') :=
  suite_paced (m.layout hP) hr fun depth =>
    lineUpTo_block (m.layout hP) (fun depth => (hr depth).mono (Nat.le_succ n)) hk hk' depth

/-- At the top, a line of a stream that ends at the seam is read in the other as well. -/
theorem lineUpTo_shadows (hP : P.Literal)
    (hr : ∀ depth, r.Paired P (m.Before P depth) (n + 1) r') (hidle : r.Idle) (hleft : m.left = [])
    {k k' : Nat} (hk : n ≤ k) (hk' : n ≤ k') :
    Shadows P (n + 1) (m.Before P 0) (m.UpTo P 0) (lineUpTo r (k + 1)) (lineUpTo r' (k' + 1))
      (P.Same fun m => List.map m.stmt) := by
  have hpaced := suiteUpTo_paced_of_le (m := m) hP hr hk hk'
  intro c d hn hS hindex hsome
  by_cases hhead : ∀ x ∈ c.rest.head?, x.token ≠ .symbol .atSign
  · have hbare : m.Bare P 0 c.rest d.rest := ⟨hS, hhead⟩
    exact line_lockstep hpaced (fun _ _ h => h.1) (definition_bare hpaced) hn hbare hindex
  · -- In front of a decorator only a definition is read.
    have hfaces : c.Faces Token.opensNoSimple := by
      intro x hx
      by_cases hdecorator : x.token = .symbol .atSign
      · simp [Token.opensNoSimple, Token.opensCompound, hdecorator]
      · refine absurd (fun y hy => ?_) hhead
        rwa [Option.mem_unique hy hx]
    have hcompound : Shadows P (n + 1) (m.Before P 0) (m.UpTo P 0)
        (compoundStmt r (suiteUpTo r k)) (compoundStmt r' (suiteUpTo r' k')) (P.Same Recast.stmt) :=
      .node <| .orElse (ifStmt_lockstep hpaced) <| .orElse (whileStmt_lockstep hpaced) <|
        .orElse (tryStmt_lockstep hpaced) <| .orElse (forStmt_lockstep hpaced) <|
        .orElse (withStmt_lockstep hpaced) <| .orElse (matchStmt_lockstep hpaced)
          (definition_shadows hpaced hleft)
    have hfirst : Shadows P (n + 1) (m.Before P 0) (m.UpTo P 0)
        (compoundStmt r (suiteUpTo r k) >>= fun stmt => pure [stmt])
        (compoundStmt r' (suiteUpTo r' k') >>= fun stmt => pure [stmt])
        (P.Same fun m => List.map m.stmt) :=
      hcompound.bind fun _ _ hstmt => .pure (by simp [hstmt])
    have hsucceeds : ((compoundStmt r (suiteUpTo r k) >>= fun stmt => pure [stmt]) c).result
        ≠ none := by
      intro hnone
      refine hsome ?_
      rw [lineUpTo_succ, Parser.orElse_of_none hnone, simpleLine_rejects hidle hfaces]
    exact (hfirst hn hS hindex hsucceeds).orElse fun hnone => absurd hnone hsucceeds

end

end Grammar

end Scrutiny
