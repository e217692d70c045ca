/-
The grammar terminates.

Four rules refer to each other: `factor`, `operand`, `expr` and the rule for lines.  What the
grammar says about them is one equation, `g.unfold = g`.  Where a rule is tried, the others
matter to it only where fewer tokens are left, or as many but they are of a lower level
(`Rules.unfold_agree`).  Hence no references lead from a rule back to itself at one place, the
equation has exactly one solution, and unrolling the rules a number of times that is linear
in the number of tokens gives the replies of the solution, whatever stands where the turns
run out.

Replies are compared as a whole, so abandoned alternatives count as well.
-/
import Mathlib.Logic.Relation
import Scrutiny.Grammar.Module
import Scrutiny.Proofs.Grammar.LineLockstep

namespace Scrutiny

open Scrutiny.Parser (Lockstep)

/-- The rules that refer to each other. -/
inductive Rule where
  | factor
  | operand
  | expr
  | line
deriving DecidableEq

namespace Rule

/-- What a rule reads. -/
abbrev Value : Rule → Type
  | line => List Stmt
  | _ => Expr

/-- A rule may refer to those of lower level before it has read a token. -/
def level : Rule → Nat
  | factor => 0
  | operand => 1
  | expr => 2
  | line => 3

end Rule

/-- A parser for each rule. -/
abbrev Rules : Type := (rule : Rule) → Parser rule.Value

namespace Grammar

/-- A line whose blocks consist of such lines. -/
def lineFrom (r : ExprRules) (line : Parser (List Stmt)) : Parser (List Stmt) :=
  (compoundStmt r (do Parser.symbol .colon; block r line) >>= fun stmt => pure [stmt]) <|>
    simpleLine r

end Grammar

namespace Rules

def exprs (g : Rules) : ExprRules := ⟨g .expr, g .operand, g .factor⟩

/-- A colon and what follows it. -/
def suite (g : Rules) : Parser (List Stmt) := do
  Parser.symbol .colon
  Grammar.block g.exprs (g .line)

/-- Each rule in terms of the four. -/
def unfold (g : Rules) : Rules
  | .factor => (Grammar.unroll g.exprs).factor
  | .operand => (Grammar.unroll g.exprs).operand
  | .expr => (Grammar.unroll g.exprs).expr
  | .line => Grammar.lineFrom g.exprs (g .line)

/-- The rules unrolled, `k` times for expressions and `j` times for lines; `g` is what is left
where the turns run out. -/
def unrolled (g : Rules) (k j : Nat) : Rules
  | .factor => (Grammar.unroll^[k] g.exprs).factor
  | .operand => (Grammar.unroll^[k] g.exprs).operand
  | .expr => (Grammar.unroll^[k] g.exprs).expr
  | .line => (Grammar.lineFrom (Grammar.unroll^[k] g.exprs))^[j] (g .line)

/-- A module. -/
def module (g : Rules) : Parser Module := do
  let lines ← Parser.many (g .line)
  Parser.eof
  return ⟨lines.flatten⟩

/-- Read a module from the tokens of a text of `size` bytes. -/
def parseTokens (g : Rules) (tokens : List Lexeme) (size : Nat) : Except SyntaxError Module :=
  let reply := g.module (Cursor.start tokens)
  match reply.result with
  | none => .error (Grammar.errorAt tokens size reply.far)
  | some (module, _) =>
    match module.targetFault? with
    | some (fault, span) => .error ⟨.target fault, span⟩
    | none => .ok module

end Rules

/-! ### Parsers that agree -/

/-- Tokens are compared with themselves. -/
def Pairing.same : Pairing := ⟨.same, .same, 0⟩

/-- On fewer than `n` tokens two parsers reply the same, and read a token if they succeed. -/
def Parser.Agree {α : Type} (n : Nat) (p q : Parser α) : Prop := Lockstep .same n true Eq Eq p q Eq

/-- A parser that does not succeed without reading a token. -/
def Parser.Eats {α : Type} (p : Parser α) : Prop :=
  ∀ c a next, (p c).result = some (a, next) → next.rest.length < c.rest.length

namespace Parser

variable {α : Type} {n m : Nat} {p q : Parser α}

theorem satisfy_same (pick : Token → Option α) : Agree n (satisfy pick) (satisfy pick) := by
  refine .satisfy fun xs ys hxs => ?_
  subst hxs
  cases xs with
  | nil => exact Or.inl ⟨nofun, nofun⟩
  | cons x xs =>
    cases hpick : pick x.token with
    | none =>
      exact Or.inl
        ⟨by simpa [Lockstep.Refuses] using hpick, by simpa [Lockstep.Refuses] using hpick⟩
    | some a => exact Or.inr ⟨x, xs, x, xs, a, a, rfl, rfl, ⟨rfl, rfl⟩, hpick, hpick, rfl, rfl⟩

theorem inline_same : Linkage.Inline .same Eq := by
  refine ⟨fun xs ys hxs => ?_⟩
  subst hxs
  cases xs with
  | nil => exact Or.inl ⟨rfl, rfl⟩
  | cons x xs => exact Or.inr ⟨x, xs, x, xs, rfl, rfl, ⟨rfl, rfl⟩, fun _ => rfl⟩

theorem token_same (t : Token) : Agree n (token t) (token t) := satisfy_same _

theorem layout_same : Linkage.Layout .same (fun _ => Eq) (fun _ => Eq) where
  literal := ⟨rfl, rfl, rfl⟩
  inline _ := inline_same
  newline := @fun _ _ => token_same _
  indent := @fun _ _ => token_same _
  dedent := @fun _ _ => token_same _
  clauseKeyword := @fun _ _ k _ => token_same (.keyword k)
  block _ _ h := h

/-- Parsers that keep pace on the same tokens reply the same. -/
theorem Lockstep.eq_at {eats : Bool} (h : Lockstep .same n eats Eq Eq p q Eq) {c : Cursor}
    (hc : c.rest.length < n) : p c = q c := by
  obtain ⟨hfar, -, hresult⟩ := h hc rfl (rfl : c.index = c.index + 0)
  have hsame : (p c).result = (q c).result := by
    rcases hresult with ⟨hp, hq⟩ | ⟨a, b, next, next', hp, hq, rfl, hrest, hmoved⟩
    · rw [hp, hq]
    · have hnext : next = next' := by
        rcases hmoved.span with ⟨rfl, rfl⟩ | hspan
        · rfl
        · obtain ⟨rest, index, edge⟩ := next
          obtain ⟨rest', index', edge'⟩ := next'
          obtain rfl : rest = rest' := hrest
          obtain rfl : index' = index := hmoved.index
          obtain rfl : edge = edge' := congrArg Span.stop hspan
          rfl
      rw [hp, hq, hnext]
  calc p c = ⟨(p c).far, (p c).result⟩ := rfl
    _ = ⟨(q c).far, (q c).result⟩ := by
        rw [hsame, show (p c).far = (q c).far by simpa [Pairing.same] using hfar.symm]
    _ = q c := rfl

theorem Lockstep.eats {R : α → α → Prop} (h : ∀ n, Lockstep .same (n + 1) true Eq Eq p q R) :
    p.Eats := by
  intro c a next hp
  obtain ⟨-, -, hresult⟩ := h c.rest.length (Nat.lt_succ_self _) rfl (c := c) rfl
  rcases hresult with ⟨hnone, -⟩ | ⟨b, _, last, _, hsome, -, -, -, hmoved⟩
  · simp [hp] at hnone
  · obtain ⟨rfl, rfl⟩ : a = b ∧ next = last := by simpa [hp] using hsome
    obtain ⟨k, hk, -, -, hpos⟩ := hmoved.read
    have := hpos rfl
    omega

/-- Parsers that reply the same agree, if one of them agrees with itself. -/
theorem Agree.of_eq (hq : Agree n q q) (h : ∀ c : Cursor, c.rest.length < n → p c = q c) :
    Agree n p q := by
  intro c d hc hrest hindex
  rw [h c hc]
  exact hq hc hrest hindex

end Parser

namespace Rules

open Scrutiny.Parser (Agree inline_same layout_same)

variable {n k k' j j' : Nat} {g g' : Rules}

/-! ### One turn -/

theorem lineFrom_agree {r r' : ExprRules} {line line' : Parser (List Stmt)}
    (hr : r.Paired .same Eq (n + 1) r') (hline : Agree n line line') :
    Agree (n + 1) (Grammar.lineFrom r line) (Grammar.lineFrom r' line') := by
  have hpaced := Grammar.suite_paced layout_same (fun _ => hr)
    fun _ => hline.imp fun _ _ h => congrArg _ h
  have hdefinition := @Grammar.definition_lockstep _ _ _ _ 0 _ _ _ _ hpaced fun _ _ h => h
  have hlines := @Grammar.line_lockstep _ _ _ _ 0 _ _ _ _ _ hpaced (fun _ _ h => h) hdefinition
  exact hlines.imp fun _ _ h => by simpa [Pairing.same, Recast.same] using h

/-- **A rule needs the others where fewer tokens are left**, and those of lower level where as
many are. -/
theorem unfold_agree (rule : Rule) (hall : ∀ rule, Agree n (g rule) (g' rule))
    (hlower : ∀ lower : Rule, lower.level < rule.level → Agree (n + 1) (g lower) (g' lower)) :
    Agree (n + 1) (g.unfold rule) (g'.unfold rule) := by
  have hexprs : g.exprs.Paired .same Eq n g'.exprs :=
    ⟨inline_same, hall .expr, hall .operand, hall .factor⟩
  cases rule with
  | factor => exact Grammar.unroll_factor hexprs
  | operand => exact Grammar.bitOr_lockstep inline_same (hlower .factor (by decide))
  | expr => exact Grammar.unroll_expr hexprs (hlower .operand (by decide))
  | line =>
    exact lineFrom_agree ⟨inline_same, hlower .expr (by decide), hlower .operand (by decide),
      hlower .factor (by decide)⟩ (hall .line)

/-- Rules that read a token before they succeed, and look at nothing but the tokens left. -/
def Proper (g : Rules) : Prop :=
  ∀ n rule, Agree n (g rule) (g rule)

theorem agree_of_unfold (hg : g.unfold = g) (hg' : g'.unfold = g') (n : Nat) (rule : Rule) :
    Agree n (g rule) (g' rule) := by
  -- On the tokens left first, and with as many left on the level.
  induction n generalizing rule with
  | zero => exact .zero
  | succ n ih =>
    induction hlevel : rule.level using Nat.strongRecOn generalizing rule with
    | ind level ihLevel =>
      have hstep := unfold_agree rule ih fun lower hlower =>
        ihLevel lower.level (hlevel ▸ hlower) lower rfl
      rwa [hg, hg'] at hstep

/-- The grammar has at most one solution. -/
theorem eq_of_unfold (hg : g.unfold = g) (hg' : g'.unfold = g') : g = g' :=
  funext fun rule => funext fun c =>
    (agree_of_unfold hg hg' _ rule).eq_at (Nat.lt_succ_self c.rest.length)

/-! ### Many turns -/

theorem iterate_lineFrom {r r' : ExprRules} (hr : r.Paired .same Eq n r')
    (line line' : Parser (List Stmt)) (hj : n ≤ j) (hj' : n ≤ j') :
    Agree n ((Grammar.lineFrom r)^[j] line) ((Grammar.lineFrom r')^[j'] line') := by
  induction n generalizing j j' with
  | zero => exact .zero
  | succ n ih =>
    obtain ⟨j, rfl⟩ : ∃ i, j = i + 1 := ⟨j - 1, by omega⟩
    obtain ⟨j', rfl⟩ : ∃ i, j' = i + 1 := ⟨j' - 1, by omega⟩
    simp only [Function.iterate_succ_apply']
    exact lineFrom_agree hr (ih (hr.mono (Nat.le_succ n)) (by omega) (by omega))

/-- **Unrolled often enough, rules agree whatever is left where the turns run out.** -/
theorem unrolled_agree (bottom bottom' : Rules) (hk : 3 * n ≤ k) (hk' : 3 * n ≤ k') (hj : n ≤ j)
    (hj' : n ≤ j') (rule : Rule) :
    Agree n (bottom.unrolled k j rule) (bottom'.unrolled k' j' rule) := by
  have hr := ExprRules.iterate_paired inline_same n bottom.exprs bottom'.exprs hk hk'
  cases rule with
  | factor => exact hr.factor
  | operand => exact hr.operand
  | expr => exact hr.expr
  | line => exact iterate_lineFrom hr _ _ hj hj'

/-- One more turn makes no difference then. -/
theorem unfold_unrolled_agree (bottom : Rules) (hk : 3 * n ≤ k) (hj : n ≤ j) (rule : Rule) :
    Agree n ((bottom.unrolled k j).unfold rule) (bottom.unrolled k j rule) := by
  have hr :=
    ExprRules.iterate_paired inline_same n bottom.exprs bottom.exprs (Nat.le_succ_of_le hk) hk
  have hline :=
    iterate_lineFrom (ExprRules.iterate_paired inline_same n bottom.exprs bottom.exprs hk hk)
      (bottom .line) (bottom .line) (Nat.le_succ_of_le hj) hj
  rw [Function.iterate_succ_apply'] at hr hline
  cases rule with
  | factor => exact hr.factor
  | operand => exact hr.operand
  | expr => exact hr.expr
  | line => exact hline

/-- Rules that read nothing. -/
def failing : Rules := fun _ => Parser.fail

/-- The rules, unrolled as often as the tokens that are left need. -/
def solution : Rules :=
  fun rule c => failing.unrolled (3 * (c.rest.length + 1)) (c.rest.length + 1) rule c

theorem unrolled_eq_solution (bottom : Rules) (rule : Rule) (c : Cursor)
    (hk : 3 * (c.rest.length + 1) ≤ k) (hj : c.rest.length + 1 ≤ j) :
    bottom.unrolled k j rule c = solution rule c :=
  (unrolled_agree bottom failing hk (Nat.le_refl _) hj (Nat.le_refl _) rule).eq_at
    (Nat.lt_succ_self _)

theorem solution_agree (hk : 3 * n ≤ k) (hj : n ≤ j) (rule : Rule) :
    Agree n (solution rule) (failing.unrolled k j rule) :=
  .of_eq (unrolled_agree _ _ hk hk hj hj rule) fun c hc =>
    (unrolled_eq_solution failing rule c (by omega) (by omega)).symm

theorem unfold_solution : solution.unfold = solution := by
  funext rule c
  let n := c.rest.length + 1
  have hn : c.rest.length < n := Nat.lt_succ_self _
  have hsolution (rule : Rule) := solution_agree (Nat.le_refl (3 * n)) (Nat.le_refl n) rule
  have hunfold := unfold_agree rule (fun rule => (hsolution rule).mono (Nat.le_succ c.rest.length))
    fun lower _ => hsolution lower
  calc solution.unfold rule c = (failing.unrolled (3 * n) n).unfold rule c := hunfold.eq_at hn
    _ = failing.unrolled (3 * n) n rule c :=
      (unfold_unrolled_agree failing (Nat.le_refl _) (Nat.le_refl _) rule).eq_at hn

/-! ### Whole modules -/

theorem lineUpTo_eq (r : ExprRules) (j : Nat) :
    Grammar.lineUpTo r j = (Grammar.lineFrom r)^[j] Parser.fail := by
  induction j with
  | zero => rfl
  | succ j ih =>
    rw [Function.iterate_succ_apply', ← ih]
    rfl

theorem parseTokens_eq (tokens : List Lexeme) (size : Nat) :
    Scrutiny.parseTokens tokens size = solution.parseTokens tokens size := by
  let n := tokens.length + 1
  have hagree : Agree n (solution .line) (Grammar.lineUpTo (.upTo (3 * n)) n) := by
    rw [ExprRules.upTo_eq, lineUpTo_eq]
    exact solution_agree (Nat.le_refl _) (Nat.le_refl _) .line
  have hlines := (Lockstep.manyPlain hagree).eq_at (c := Cursor.start tokens) (Nat.lt_succ_self _)
  have hmodule : Grammar.moduleUpTo tokens.length (Cursor.start tokens)
      = solution.module (Cursor.start tokens) := by
    show Parser.bind _ _ _ = Parser.bind _ _ _
    unfold Parser.bind
    rw [hlines]
    rfl
  rw [Scrutiny.parseTokens, hmodule]
  rfl

/-! ### Repetition -/

section

open Scrutiny.Parser
open Scrutiny.Grammar

/-- What is read several times in a row by some rule, with separators between or without. -/
inductive Repeated (g : Rules) : {α : Type} → Parser α → Prop
  /-- Names, the dots before a module, and the parts of a string. -/
  | satisfy {α : Type} (pick : Token → Option α) : g.Repeated (satisfy pick)
  | starItem : g.Repeated (starItem g.exprs)
  | target : g.Repeated (starredOperand g.exprs <|> g .operand)
  | subscriptItem : g.Repeated (subscriptItem g.exprs)
  | condition : g.Repeated (do keyword .if_; g .expr)
  | clause : g.Repeated (clause g.exprs)
  | argument : g.Repeated (argument g.exprs)
  | paramItem (annotated : Bool) : g.Repeated (paramItem g.exprs annotated)
  | dictItem : g.Repeated (spreadItem g.exprs <|> (do
      let (key, value) ← keyedItem g.exprs
      return (⟨some key, value⟩ : DictItem)))
  | trailer : g.Repeated (trailer g.exprs)
  /-- An operator and what is on its right, which has operators that bind tighter. -/
  | operation (op? : Token → Option BinOp) (tighter : List (Token → Option BinOp)) :
    g.Repeated (do
      let op ← Parser.satisfy op?
      let right ← tighter.foldl binaryLevel (g .factor)
      return (op, right))
  | comparison : g.Repeated (do
      let op ← cmpOp
      let right ← g .operand
      return (op, right))
  | negation : g.Repeated (spanOf (keyword .not_))
  | conjunct : g.Repeated (do keyword .and_; notTest g.exprs)
  | disjunct : g.Repeated (do keyword .or_; andTest g.exprs)
  | dottedAlias : g.Repeated (do
      let name ← dottedName
      let asName ← asName
      return (⟨name, asName⟩ : Alias))
  | plainAlias : g.Repeated plainAlias
  | typeParam : g.Repeated (typeParam g.exprs)
  | side : g.Repeated (do symbol .assign; rightSide g.exprs)
  | simpleStmt : g.Repeated (simpleStmt g.exprs)
  | line : g.Repeated (g .line)
  | elif : g.Repeated (do
      let mark ← spanOf (keyword .elif_)
      let test ← g .expr
      let body ← g.suite
      return (mark, test, body))
  | handler : g.Repeated (handler g.exprs g.suite)
  | withItem : g.Repeated (withItem g.exprs)
  | caseClause : g.Repeated (caseClause g.exprs g.suite)
  | decorator : g.Repeated (do
      symbol .atSign
      let decorator ← g .expr
      token .newline
      return decorator)
  /-- An item behind a separator. -/
  | separated {α : Type} {p : Parser α} (s : Symbol) (h : g.Repeated p) :
    g.Repeated (do symbol s; p)

theorem foldl_binaryLevel_agree {operand : Parser Expr} (h : Agree n operand operand)
    (ops : List (Token → Option BinOp)) :
    Agree n (ops.foldl binaryLevel operand) (ops.foldl binaryLevel operand) := by
  induction ops generalizing operand with
  | nil => exact h
  | cons op? ops ih => exact ih (binaryLevel_lockstep h (satisfy_same op?))

/-- What is repeated reads a token each time. -/
theorem Repeated.lockstep {α : Type} {p : Parser α} (hg : g.Proper) (h : g.Repeated p) (n : Nat) :
    Lockstep .same (n + 1) true Eq Eq p p fun _ _ => True := by
  have hr : g.exprs.Paired .same Eq (n + 1) g.exprs :=
    ⟨inline_same, hg _ .expr, hg _ .operand, hg _ .factor⟩
  have hpaced : Paced .same (fun _ => Eq) (fun _ => Eq) (n + 1) g.exprs g.exprs g.suite g.suite :=
    suite_paced layout_same (fun _ => hr) fun _ => (hg n .line).imp fun _ _ h => congrArg _ h
  have any {α : Type} {p : Parser α} {R : α → α → Prop} {m : Nat} (hm : n + 1 ≤ m)
      (h : Lockstep .same m true Eq Eq p p R) :
      Lockstep .same (n + 1) true Eq Eq p p fun _ _ => True :=
    (h.mono hm).imp fun _ _ _ => trivial
  have hn := Nat.le_refl (n + 1)
  have hn' := Nat.le_succ (n + 1)
  induction h with
  | satisfy pick => exact any hn (satisfy_same pick)
  | starItem => exact any hn (starItem_lockstep hr)
  | target => exact .orElse (any hn' (starredOperand_lockstep hr)) (any hn hr.operand)
  | subscriptItem => exact any hn (subscriptItem_lockstep hr)
  | condition => exact .andThen hr.keyword fun _ _ _ => any hn hr.expr
  | clause => exact any hn' (clause_lockstep hr)
  | argument => exact any hn (argument_lockstep hr)
  | paramItem annotated => exact any hn (paramItem_lockstep hr annotated)
  | dictItem =>
    exact .orElse (any hn' (spreadItem_lockstep hr))
      (.andThen (keyedItem_lockstep hr) fun _ _ _ => .pure trivial)
  | trailer => exact any hn' (trailer_lockstep hr)
  | operation op? tighter =>
    exact .andThen (satisfy_same op?) fun _ _ _ =>
      .bind (foldl_binaryLevel_agree (hg _ .factor) tighter) fun _ _ _ => .pure trivial
  | comparison =>
    exact .andThen (cmpOp_lockstep inline_same) fun _ _ _ =>
      .bind hr.operand fun _ _ _ => .pure trivial
  | negation => exact any hn (.spanOf hr.keyword)
  | conjunct =>
    exact .andThen hr.keyword fun _ _ _ => any hn (notTest_lockstep inline_same hr.operand)
  | disjunct =>
    exact .andThen hr.keyword fun _ _ _ =>
      any hn (chained_lockstep inline_same (notTest_lockstep inline_same hr.operand) .and_ .and)
  | dottedAlias =>
    exact .andThen (Dotted.of_literal layout_same.literal inline_same).joined fun _ _ _ =>
      .bind (asName_lockstep inline_same) fun _ _ _ => .pure trivial
  | plainAlias =>
    exact .andThen hr.name fun _ _ _ => .bind (asName_lockstep inline_same) fun _ _ _ =>
      .pure trivial
  | typeParam => exact any hn (typeParam_lockstep hr)
  | side => exact .andThen hr.symbol fun _ _ _ => any hn (rightSide_lockstep hr)
  | simpleStmt => exact any hn (simpleStmt_lockstep hr layout_same.literal)
  | line => exact any hn (hg _ .line)
  | elif =>
    exact .andThen (.spanOf hr.keyword) fun _ _ _ => .bind hr.expr fun _ _ _ =>
      .bind (hpaced.suite 0) fun _ _ _ => .pure trivial
  | handler => exact any hn (@handler_lockstep _ _ _ _ 0 _ _ _ _ hpaced)
  | withItem => exact any hn (withItem_lockstep hr)
  | caseClause => exact any hn (@caseClause_lockstep _ _ _ _ 0 _ _ _ _ hpaced)
  | decorator => exact any hn (@decorator_lockstep _ _ _ _ 0 _ _ _ _ hpaced)
  | separated s _ ih => exact .andThen hr.symbol fun _ _ _ => ih

end

/-! ### References -/

/-- What the second rule replies where so many tokens are left can matter to the first where
so many are left. -/
def Refers (x y : Rule × Nat) : Prop :=
  ∃ g g' : Rules, g.Proper ∧ g'.Proper ∧
    (∀ rule (c : Cursor), (rule, c.rest.length) ≠ y → g rule c = g' rule c) ∧
    ∃ c : Cursor, c.rest.length = x.2 ∧ g.unfold x.1 c ≠ g'.unfold x.1 c

/-- Rules of which only a factor reads anything, a name that is the last token. -/
def lastName : Rules
  | .factor => fun c => if c.rest.length = 1 then Grammar.nameAtom c else Parser.fail c
  | .operand | .expr | .line => Parser.fail

theorem proper_lastName : lastName.Proper := by
  intro n rule
  cases rule with
  | factor =>
    intro c d hc (hrest : c.rest = d.rest) hindex
    simp only [lastName, ← hrest]
    split
    · exact Grammar.nameAtom_lockstep inline_same hc hrest hindex
    · exact Lockstep.fail hc hrest hindex
  | _ => exact .fail

/-- An operand is a factor to begin with. -/
theorem refers_operand : Refers (.operand, 1) (.factor, 1) := by
  refine ⟨failing, lastName, fun _ _ => .fail, proper_lastName, fun rule c hne => ?_,
    .start [⟨.name "x", ⟨0, 1⟩⟩], rfl, fun h => ?_⟩
  · cases rule with
    | factor => exact (if_neg fun h => hne (congrArg _ h)).symm
    | _ => rfl
  · exact absurd (congrArg (·.result.isSome) h) (by decide)

/-- **References lead down**, in the tokens left or else in the level. -/
theorem Refers.decreases {x y : Rule × Nat} (h : Refers x y) :
    y.2 < x.2 ∨ y.2 = x.2 ∧ y.1.level < x.1.level := by
  by_contra hnot
  obtain ⟨g, g', -, hg', hsame, c, hc, hne⟩ := h
  refine hne
    ((unfold_agree (n := x.2) x.1 (fun rule => ?_) fun lower hlower => ?_).eq_at (by omega))
  · refine .of_eq (hg' _ rule) fun d hd => hsame rule d ?_
    rintro rfl
    exact hnot (.inl hd)
  · refine .of_eq (hg' _ lower) fun d hd => hsame lower d ?_
    rintro rfl
    simp only at hnot
    omega

theorem transGen_decreases {x y : Rule × Nat} (h : Relation.TransGen Refers x y) :
    y.2 < x.2 ∨ y.2 = x.2 ∧ y.1.level < x.1.level := by
  induction h with
  | single h => exact h.decreases
  | tail _ h ih =>
    have hlast := h.decreases
    omega

/-- **The grammar terminates.**  What is repeated reads a token each time.  References lead
down, so none returns to a rule where it was tried.  The rules have one solution, which is what
modules are read by, and turns linear in the tokens left are enough for its replies. -/
theorem grammar_terminates :
    (∀ (g : Rules) (α : Type) (p : Parser α), g.Proper → g.Repeated p → p.Eats) ∧
    (∀ x y, Refers x y → y.2 < x.2 ∨ y.2 = x.2 ∧ y.1.level < x.1.level) ∧
    (∀ x, ¬ Relation.TransGen Refers x x) ∧
    ∃ g : Rules, g.Proper ∧ g.unfold = g ∧ (∀ g' : Rules, g'.unfold = g' → g' = g) ∧
      (∀ (bottom : Rules) rule (c : Cursor) k j, 3 * (c.rest.length + 1) ≤ k →
        c.rest.length + 1 ≤ j → bottom.unrolled k j rule c = g rule c) ∧
      ∀ tokens size, Scrutiny.parseTokens tokens size = g.parseTokens tokens size := by
  refine ⟨fun g α p hg hp => Lockstep.eats (hp.lockstep hg), fun x y h => h.decreases,
    fun x hx => ?_, solution, agree_of_unfold unfold_solution unfold_solution, unfold_solution,
    fun g' hg' => eq_of_unfold hg' unfold_solution,
    fun bottom rule c k j hk hj => unrolled_eq_solution bottom rule c hk hj, parseTokens_eq⟩
  have := transGen_decreases hx
  omega

theorem grammar_terminates_operand :
    Refers (.operand, 1) (.factor, 1) ∧ Rule.factor.level < Rule.operand.level :=
  ⟨refers_operand, ((grammar_terminates.2.1 _ _ refers_operand).resolve_left (by decide)).2⟩

end Rules

end Scrutiny
