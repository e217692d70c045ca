/-
Where no statement starts.

Some tokens start no logical line: the marks of the layout, the keywords of later
clauses, and, but for definitions, the sign before a decorator (`Token.isIdle`).  In
front of one of these, or at the end, every rule gives up at once, having expected
something else in its place.  Simple statements give up in front of the keywords of
compound ones too (`Token.opensNoSimple`).
-/
import Scrutiny.Grammar.Stmt
import Scrutiny.Proofs.Grammar.Lockstep

namespace Scrutiny

/-- Whether no line starts with a token. -/
def Token.isIdle : Token → Bool
  | .newline | .indent | .dedent => true
  | .keyword .elif_ | .keyword .else_ | .keyword .except_ | .keyword .finally_ => true
  | _ => false

/-- Whether no line starts with a token, unless it has decorators. -/
def Token.isIdleUndecorated (t : Token) : Bool := t.isIdle || t == .symbol .atSign

/-- Whether a compound statement starts with a token, unless that is a name. -/
def Token.opensCompound : Token → Bool
  | .keyword .if_ | .keyword .while_ | .keyword .try_ | .keyword .for_ | .keyword .with_
  | .keyword .async_ | .keyword .def_ | .keyword .class_ | .symbol .atSign => true
  | _ => false

/-- Whether no simple statement starts with a token. -/
def Token.opensNoSimple (t : Token) : Bool := t.isIdle || t.opensCompound

/-- The next token, if there is one, is of some kind. -/
def Cursor.Faces (c : Cursor) (kind : Token → Bool) : Prop :=
  ∀ x ∈ c.rest.head?, kind x.token = true

namespace Parser

variable {α β : Type} {kind : Token → Bool} {p q : Parser α} {f : α → Parser β}

/-- A parser gives up in front of tokens of some kind. -/
def Rejects (kind : Token → Bool) (p : Parser α) : Prop :=
  ∀ ⦃c : Cursor⦄, c.Faces kind → p c = ⟨c.index, none⟩

/-- A parser reads nothing in front of tokens of some kind. -/
def Skips (kind : Token → Bool) (p : Parser α) : Prop :=
  ∀ ⦃c : Cursor⦄, c.Faces kind → ∃ a, p c = ⟨c.index, some (a, c)⟩

namespace Rejects

theorem satisfy {pick : Token → Option α} (h : ∀ t, kind t = true → pick t = none) :
    Rejects kind (satisfy pick) := by
  intro c hc
  exact Lockstep.satisfy_of_refuses fun x hx => h _ (hc x hx)

theorem token {t : Token} (ht : kind t = false) : Rejects kind (token t) := by
  refine satisfy fun other hother => if_neg ?_
  rintro rfl
  simp [ht] at hother

theorem keyword {k : Keyword} (hk : kind (.keyword k) = false) : Rejects kind (keyword k) :=
  token hk

theorem symbol {s : Symbol} (hs : kind (.symbol s) = false) : Rejects kind (symbol s) := token hs

theorem name (h : ∀ text, kind (.name text) = false) : Rejects kind name := by
  refine satisfy fun t ht => ?_
  cases t with
  | name text => simp [h] at ht
  | _ => rfl

theorem mono (hp : Rejects kind p) {kind' : Token → Bool}
    (h : ∀ t, kind' t = true → kind t = true) : Rejects kind' p :=
  fun _ hc => hp fun x hx => h _ (hc x hx)

theorem bind (hp : Rejects kind p) : Rejects kind (p >>= f) := by
  intro c hc
  rw [bind_of_none (by rw [hp hc]), hp hc]

/-- What comes first may be missing. -/
theorem skip (hp : Skips kind p) (hf : ∀ a, Rejects kind (f a)) : Rejects kind (p >>= f) := by
  intro c hc
  obtain ⟨a, ha⟩ := hp hc
  rw [bind_of_some (by rw [ha]), ha, hf a hc, Nat.max_self]

theorem orElse (hp : Rejects kind p) (hq : Rejects kind q) : Rejects kind (p <|> q) := by
  intro c hc
  rw [orElse_of_none (by rw [hp hc]), hp hc, hq hc, Nat.max_self]

theorem node {p : Parser (Span → α)} (hp : Rejects kind p) : Rejects kind (node p) := by
  intro c hc
  rw [node_eq, hp hc]
  rfl

theorem spanOf {p : Parser Unit} (hp : Rejects kind p) : Rejects kind (spanOf p) := node hp.bind

theorem bracketed {b : Bracket} (hb : kind (.symbol (.opening b)) = false) :
    Rejects kind (bracketed b p) := bind (symbol hb)

end Rejects

theorem Skips.many (hp : Rejects kind p) : Skips kind (many p) := by
  intro c hc
  refine ⟨[], ?_⟩
  change manyWithin p c.rest c = _
  rw [manyWithin_of_none (by rw [hp hc]), hp hc]

theorem Skips.opt (hp : Rejects kind p) : Skips kind (opt p) := by
  intro c hc
  have hread := (hp.bind (f := fun a => Pure.pure (some a))) hc
  refine ⟨none, ?_⟩
  unfold Parser.opt
  rw [orElse_of_none (by rw [hread]), hread]
  change (⟨max c.index 0, some (none, c)⟩ : Reply (Option α)) = _
  rw [Nat.max_zero]

end Parser

namespace Grammar

open Scrutiny.Parser (Rejects Skips)

/-! ### Expressions -/

theorem atom_rejects (r : ExprRules) : Rejects Token.opensNoSimple (atom r) := by
  refine .orElse ?_ (.orElse ?_ (.orElse ?_ (.orElse ?_ (.orElse ?_ ?_))))
  · exact .node (.bind (.name fun _ => rfl))
  · refine .node (.bind (.satisfy fun t ht => ?_))
    cases t with
    | keyword k =>
      cases k <;> first
        | rfl
        | simp [Token.opensNoSimple, Token.isIdle, Token.opensCompound] at ht
    | symbol s =>
      cases s <;> first
        | rfl
        | simp [Token.opensNoSimple, Token.isIdle, Token.opensCompound] at ht
    | number text => simp [Token.opensNoSimple, Token.isIdle, Token.opensCompound] at ht
    | _ => rfl
  · refine .node (.bind (.bind (.satisfy fun t ht => ?_)))
    cases t with
    | string text => simp [Token.opensNoSimple, Token.isIdle, Token.opensCompound] at ht
    | _ => rfl
  · exact .node (.bind (.bracketed rfl))
  · exact .node (.bind (.bracketed rfl))
  · exact .node (.bracketed rfl)

theorem factor_rejects (r : ExprRules) : Rejects Token.opensNoSimple (signed r <|> power r) := by
  refine .orElse (.bind (.node (.bind (.satisfy fun t ht => ?_)))) (.bind ?_)
  · cases t with
    | symbol s =>
      cases s <;> first
        | rfl
        | simp [Token.opensNoSimple, Token.isIdle, Token.opensCompound] at ht
    | _ => rfl
  · exact .skip (.opt (.spanOf (.keyword rfl))) fun _ => .bind (.bind (atom_rejects r))

end Grammar

/-- The three rules give up where no simple statement starts. -/
structure ExprRules.Idle (r : ExprRules) : Prop where
  expr : Parser.Rejects Token.opensNoSimple r.expr
  operand : Parser.Rejects Token.opensNoSimple r.operand
  factor : Parser.Rejects Token.opensNoSimple r.factor

theorem ExprRules.upTo_idle (n : Nat) : (ExprRules.upTo (n + 3)).Idle := by
  have hoperand (n : Nat) : Parser.Rejects Token.opensNoSimple (ExprRules.upTo (n + 2)).operand :=
    .bind (.bind (.bind (.bind (.bind (.bind (Grammar.factor_rejects _))))))
  refine ⟨?_, hoperand (n + 1), Grammar.factor_rejects _⟩
  refine .orElse (.node (.bind (.node (.bind (.name fun _ => rfl))))) (.orElse ?_ ?_)
  · exact .node (.bind (.keyword rfl))
  · -- Past the signs of negation the first operand comes next.
    exact .bind (.bind (.bind (.skip (.many (.spanOf (.keyword rfl)))
      fun _ => .bind (.bind (hoperand n)))))

namespace Grammar

open Scrutiny.Parser (Rejects Skips)

variable {r : ExprRules}

theorem exprList_rejects (hr : r.Idle) : Rejects Token.opensNoSimple (exprList (starItem r)) :=
  .node (.bind (.bind (.orElse (.bind (.spanOf (.symbol rfl))) hr.expr)))

/-! ### Statements -/

theorem simpleStmt_rejects (hr : r.Idle) : Rejects Token.opensNoSimple (simpleStmt r) := by
  refine .node <| .orElse (.bind (.keyword rfl)) <| .orElse (.bind (.keyword rfl)) <|
    .orElse (.bind (.keyword rfl)) <| .orElse (.bind (.keyword rfl)) <|
    .orElse (.bind (.keyword rfl)) <| .orElse (.bind (.keyword rfl)) <|
    .orElse (.bind (.keyword rfl)) <| .orElse (.bind (.keyword rfl)) <|
    .orElse (.bind (.keyword rfl)) <| .orElse (.bind (.keyword rfl)) <|
    .orElse (.bind (.keyword rfl)) <| .orElse ?_ <| .orElse (.bind (.token rfl)) ?_
  · exact .bind (.node (.bind (.keyword rfl)))
  · exact .bind (exprList_rejects hr)

theorem simpleLine_rejects (hr : r.Idle) : Rejects Token.opensNoSimple (simpleLine r) :=
  .bind (.bind (.bind (simpleStmt_rejects hr)))

variable {suite : Parser (List Stmt)}

/-- Behind its decorators a definition starts with a keyword. -/
theorem undecorated_rejects (decorators : List Expr) : Rejects Token.isIdleUndecorated
    (functionDef r suite decorators <|> classDef r suite decorators) :=
  .orElse (.skip (.opt (.keyword rfl)) fun _ => .bind (.keyword rfl)) (.bind (.keyword rfl))

theorem compoundStmt_rejects : Rejects Token.isIdle (compoundStmt r suite) := by
  have hundecorated (decorators : List Expr) : Rejects Token.isIdle
      (functionDef r suite decorators <|> classDef r suite decorators) :=
    (undecorated_rejects decorators).mono fun t ht => by simp [Token.isIdleUndecorated, ht]
  refine .node <| .orElse (.bind (.keyword rfl)) <| .orElse (.bind (.keyword rfl)) <|
    .orElse (.bind (.keyword rfl)) <| .orElse ?_ <| .orElse ?_ <| .orElse (.bind (.token rfl)) ?_
  · exact .skip (.opt (.keyword rfl)) fun _ => .bind (.keyword rfl)
  · exact .skip (.opt (.keyword rfl)) fun _ => .bind (.keyword rfl)
  · exact .skip (.many (.bind (.symbol rfl))) fun _ => hundecorated _

/-- A line gives up where none starts. -/
theorem lineUpTo_rejects (hr : r.Idle) (n : Nat) : Rejects Token.isIdle (lineUpTo r (n + 1)) := by
  refine .orElse (.bind compoundStmt_rejects) ((simpleLine_rejects hr).mono fun t ht => ?_)
  simp [Token.opensNoSimple, ht]

end Grammar

end Scrutiny
