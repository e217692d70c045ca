/-
Statements are read in lockstep up to a seam.

Two streams share a stretch of tokens and then go on differently.  A statement may
look past the end of its last line, for an `else` or a handler, so what comes after
the seam must be nothing that continues a statement (`Seam`).  With that, each rule
for statements keeps pace as far as the seam and stops there.

The linkage between what is left carries how many blocks of the stretch are open:
inside a block the seam cannot be next.  Only behind decorators, which are lines of
their own, does a statement read on without a keyword that announces it.  There the
rules keep pace inside a block, or where no definition comes after the seam
(`Seam.Settled`).
-/
import Scrutiny.Grammar.Stmt
import Scrutiny.Proofs.Grammar.ExprLockstep
import Scrutiny.Proofs.Grammar.Rejection

namespace Scrutiny

variable {S T : Linkage} {ds ds' : List Expr} {t : Token}

/-! ### Stretches of tokens -/

/-- The tokens left of a stretch, with the blocks that are open and whether a line is. -/
inductive Stretch : Nat → Bool → List Lexeme → Prop
  | done : Stretch 0 false []
  | newline {depth : Nat} {x : Lexeme} {xs : List Lexeme} (hx : x.token = .newline)
      (hxs : Stretch depth false xs) : Stretch depth true (x :: xs)
  | indent {depth : Nat} {x : Lexeme} {xs : List Lexeme} (hx : x.token = .indent)
      (hxs : Stretch (depth + 1) false xs) : Stretch depth false (x :: xs)
  | dedent {depth : Nat} {x : Lexeme} {xs : List Lexeme} (hx : x.token = .dedent)
      (hxs : Stretch depth false xs) : Stretch (depth + 1) false (x :: xs)
  | plain {depth : Nat} {line : Bool} {x : Lexeme} {xs : List Lexeme} (hx : x.token.isMark = false)
      (hxs : Stretch depth true xs) : Stretch depth line (x :: xs)

namespace Stretch

variable {depth : Nat} {line : Bool} {x : Lexeme} {xs : List Lexeme}

theorem ne_nil_of_line (h : Stretch depth true xs) : xs ≠ [] := by
  cases h with
  | _ => exact List.cons_ne_nil _ _

theorem ne_nil_of_block (h : Stretch (depth + 1) line xs) : xs ≠ [] := by
  cases h with
  | _ => exact List.cons_ne_nil _ _

theorem after_plain (h : Stretch depth line (x :: xs)) (hx : x.token.isMark = false) :
    Stretch depth true xs := by
  cases h with
  | plain _ hxs => exact hxs
  | newline hmark | indent hmark | dedent hmark => simp [hmark, Token.isMark] at hx

theorem after_newline (h : Stretch depth line (x :: xs)) (hx : x.token = .newline) :
    Stretch depth false xs := by
  cases h with
  | newline _ hxs => exact hxs
  | plain hmark | indent hmark | dedent hmark => simp [hx, Token.isMark] at hmark

theorem after_indent (h : Stretch depth line (x :: xs)) (hx : x.token = .indent) :
    Stretch (depth + 1) false xs := by
  cases h with
  | indent _ hxs => exact hxs
  | plain hmark | newline hmark | dedent hmark => simp [hx, Token.isMark] at hmark

theorem after_dedent (h : Stretch (depth + 1) line (x :: xs)) (hx : x.token = .dedent) :
    Stretch depth false xs := by
  cases h with
  | dedent _ hxs => exact hxs
  | plain hmark | newline hmark | indent hmark => simp [hx, Token.isMark] at hmark

end Stretch

/-- Whether a token at the start of a line belongs to the statement before it. -/
def Token.continuesStmt : Token → Bool
  | .indent | .keyword .elif_ | .keyword .else_ | .keyword .except_ | .keyword .finally_ => true
  | _ => false

theorem Token.isIdle_of_continuesStmt (h : t.continuesStmt = true) : t.isIdle = true := by
  unfold Token.continuesStmt at h
  split at h <;> simp_all [Token.isIdle]

/-- What comes after a stretch in two streams. -/
structure Seam where
  left : List Lexeme
  right : List Lexeme
  left_fresh : ∀ x ∈ left.head?, x.token.continuesStmt = false
  right_fresh : ∀ x ∈ right.head?, x.token.continuesStmt = false

namespace Seam

variable (m : Seam) (P : Pairing) (depth : Nat)

/-- What is left of two streams that share a stretch, at the seam or before it. -/
def UpTo : Linkage := fun xs ys => ∃ line shared shared', xs = shared ++ m.left ∧
  ys = shared' ++ m.right ∧ List.Forall₂ P.Alike shared shared' ∧ Stretch depth line shared

/-- What is left of two streams that share a stretch, before the seam. -/
def Before : Linkage := fun xs ys => ∃ line x xs' y ys', xs = x :: xs' ++ m.left ∧
  ys = y :: ys' ++ m.right ∧ P.Alike x y ∧ List.Forall₂ P.Alike xs' ys' ∧
  Stretch depth line (x :: xs')

variable {m P depth} {xs ys : List Lexeme}

theorem UpTo.cases (h : m.UpTo P depth xs ys) :
    m.Before P depth xs ys ∨ depth = 0 ∧ xs = m.left ∧ ys = m.right := by
  obtain ⟨line, shared, shared', rfl, rfl, halike, hstretch⟩ := h
  cases halike with
  | nil =>
    cases hstretch with
    | done => exact Or.inr ⟨rfl, rfl, rfl⟩
  | cons hx hxs => exact Or.inl ⟨line, _, _, _, _, rfl, rfl, hx, hxs, hstretch⟩

theorem UpTo.of_before (h : m.Before P depth xs ys) : m.UpTo P depth xs ys := by
  obtain ⟨line, x, xs', y, ys', hxs, hys, hx, halike, hstretch⟩ := h
  exact ⟨line, _, _, hxs, hys, .cons hx halike, hstretch⟩

theorem Before.of_block (h : m.UpTo P (depth + 1) xs ys) : m.Before P (depth + 1) xs ys := by
  rcases h.cases with h | ⟨hdepth, -⟩
  · exact h
  · omega

theorem Before.of_stretch {line : Bool} {shared shared' : List Lexeme}
    (halike : List.Forall₂ P.Alike shared shared') (hstretch : Stretch depth line shared)
    (hne : shared ≠ []) : m.Before P depth (shared ++ m.left) (shared' ++ m.right) := by
  cases halike with
  | nil => exact absurd rfl hne
  | cons hx hxs => exact ⟨line, _, _, _, _, rfl, rfl, hx, hxs, hstretch⟩

theorem before_inline : (m.Before P depth).Inline P := by
  refine ⟨fun xs ys h => ?_⟩
  obtain ⟨line, x, xs', y, ys', rfl, rfl, hx, halike, hstretch⟩ := h
  refine Or.inr ⟨x, _, y, _, rfl, rfl, hx, fun hplain => ?_⟩
  have hline := hstretch.after_plain hplain
  exact .of_stretch halike hline hline.ne_nil_of_line

end Seam

namespace Parser.Lockstep

variable {m : Seam} {P : Pairing} {n depth : Nat}

/-- A token before the seam is read by both or by neither. -/
theorem before (ht : ∀ text, t ≠ .name text)
    (h : ∀ line x xs xs', x.token = t → Stretch depth line (x :: xs) → List.Forall₂ P.Alike xs xs' →
      S (xs ++ m.left) (xs' ++ m.right)) :
    Lockstep P n true (m.Before P depth) S (token t) (token t) Eq := by
  refine .satisfy fun xs ys hbefore => ?_
  obtain ⟨line, x, xs', y, ys', rfl, rfl, hx, halike, hstretch⟩ := hbefore
  have hsame := hx.token_eq_iff ht
  by_cases hxt : x.token = t
  · exact Or.inr ⟨x, _, y, _, (), (), rfl, rfl, hx, if_pos hxt, if_pos (hsame.mp hxt), rfl,
      h line x xs' ys' hxt hstretch halike⟩
  · refine Or.inl ⟨?_, ?_⟩
    · simpa [Refuses] using hxt
    · simpa [Refuses, ← hsame] using hxt

theorem newline :
    Lockstep P n true (m.Before P depth) (m.UpTo P depth) (token .newline) (token .newline) Eq :=
  before (by simp) fun _ _ _ _ hx hstretch halike =>
    ⟨false, _, _, rfl, rfl, halike, hstretch.after_newline hx⟩

theorem dedent : Lockstep P n true (m.Before P (depth + 1)) (m.UpTo P depth) (token .dedent)
    (token .dedent) Eq :=
  before (by simp) fun _ _ _ _ hx hstretch halike =>
    ⟨false, _, _, rfl, rfl, halike, hstretch.after_dedent hx⟩

/-- What is given up after the seam need only be known before it. -/
theorem upTo {α : Type} {p q : Parser α} {R : α → α → Prop} {eats : Bool}
    {k : Token → Bool} (h : Lockstep P n eats (m.Before P depth) S p q R)
    (hp : Rejects k p) (hq : Rejects k q) (hleft : depth = 0 → ∀ x ∈ m.left.head?, k x.token = true)
    (hright : depth = 0 → ∀ x ∈ m.right.head?, k x.token = true) :
    Lockstep P n eats (m.UpTo P depth) S p q R := by
  intro c d hn hupTo hindex
  rcases hupTo.cases with hbefore | ⟨hdepth, hc, hd⟩
  · exact h hn hbefore hindex
  · have hleft : c.Faces k := by
      rw [Cursor.Faces, hc]
      exact hleft hdepth
    have hright : d.Faces k := by
      rw [Cursor.Faces, hd]
      exact hright hdepth
    rw [hp hleft, hq hright]
    exact ⟨by simp only; omega, Nat.le_add_right _ _, Or.inl ⟨rfl, rfl⟩⟩

/-- A token that continues a statement is not found after the seam. -/
theorem continuing (ht : t.continuesStmt = true)
    (h : Lockstep P n true (m.Before P depth) S (token t) (token t) Eq) :
    Lockstep P n true (m.UpTo P depth) S (token t) (token t) Eq := by
  have hrejects : Rejects (fun other => !other.continuesStmt) (token t) := .token (by simp [ht])
  exact h.upTo hrejects hrejects (fun _ x hx => by simp [m.left_fresh x hx])
    fun _ x hx => by simp [m.right_fresh x hx]

theorem indent : Lockstep P n true (m.UpTo P depth) (m.Before P (depth + 1)) (token .indent)
    (token .indent) Eq :=
  continuing rfl <| before (by simp) fun _ _ _ _ hx hstretch halike =>
    .of_stretch halike (hstretch.after_indent hx) (hstretch.after_indent hx).ne_nil_of_block

theorem clauseKeyword {k : Keyword} (hk : (Token.keyword k).continuesStmt = true) :
    Lockstep P n true (m.UpTo P depth) (m.Before P depth) (keyword k) (keyword k) Eq :=
  continuing hk Seam.before_inline.keyword

end Parser.Lockstep

/-- What is left of two streams along a layout: with `depth` blocks open, before or in a line
(`B depth`), or also where no line may come (`U depth`). -/
structure Linkage.Layout (P : Pairing) (B U : Nat → Linkage) : Prop where
  literal : P.Literal
  inline depth : (B depth).Inline P
  newline {n depth} :
    Parser.Lockstep P n true (B depth) (U depth) (.token .newline) (.token .newline) Eq
  indent {n depth} :
    Parser.Lockstep P n true (U depth) (B (depth + 1)) (.token .indent) (.token .indent) Eq
  dedent {n depth} :
    Parser.Lockstep P n true (B (depth + 1)) (U depth) (.token .dedent) (.token .dedent) Eq
  clauseKeyword {n depth k} (hk : (Token.keyword k).continuesStmt = true) :
    Parser.Lockstep P n true (U depth) (B depth) (.keyword k) (.keyword k) Eq
  block {depth} xs ys : U (depth + 1) xs ys → B (depth + 1) xs ys

open Parser.Lockstep in
theorem Seam.layout (m : Seam) {P : Pairing} (hP : P.Literal) :
    Linkage.Layout P (m.Before P) (m.UpTo P) :=
  ⟨hP, fun _ => before_inline, @newline m P, @indent m P, @dedent m P, @clauseKeyword m P,
    fun _ _ => .of_block⟩

/-! ### Building statements commutes with recasting -/

namespace Grammar

section

variable (m : Recast)

/-- What follows the first expressions of a statement, recast. -/
def AssignTail.recast : AssignTail → AssignTail
  | annotated hint value => annotated (m.expr hint) (value.map m.expr)
  | augmented op value => augmented op (m.expr value)
  | chained first more => chained (m.expr first) (more.map m.expr)
  | nothing => nothing

theorem assignment_recast (target first : Expr) (more : List Expr) (span : Span) :
    m.stmt (assignment target first more span)
      = assignment (m.expr target) (m.expr first) (more.map m.expr) (span.respan m.offset) := by
  unfold assignment
  rw [List.getLast?_map]
  cases more.getLast? with
  | none => simp
  | some value => simp [List.map_dropLast]

/-- A branch of an `if`, recast. -/
def recastElif (clause : Span × Expr × List Stmt) : Span × Expr × List Stmt :=
  (clause.1.respan m.offset, m.expr clause.2.1, clause.2.2.map m.stmt)

theorem foldr_nestElif_recast (clauses : List (Span × Expr × List Stmt)) (orElse : List Stmt) :
    (clauses.foldr nestElif orElse).map m.stmt
      = (clauses.map (recastElif m)).foldr nestElif (orElse.map m.stmt) := by
  induction clauses with
  | nil => rfl
  | cons clause clauses ih =>
    rw [List.foldr_cons, List.map_cons, List.foldr_cons, ← ih]
    generalize clauses.foldr nestElif orElse = rest
    obtain ⟨mark, test, body⟩ := clause
    simp only [nestElif, recastElif, List.getLast?_map, List.map_cons, List.map_nil]
    cases rest.getLast? <;> cases body.getLast? <;> simp [Span.respan, Recast.span_stmt]

end

open Scrutiny.Parser (Lockstep)

/-! ### Simple statements -/

section

variable {P : Pairing} {T : Linkage} {n : Nat} {r r' : ExprRules}

variable (hr : r.Paired P T n r')

include hr

theorem rightSide_lockstep :
    Lockstep P n true T T (rightSide r) (rightSide r') (P.Same Recast.expr) :=
  .orElse ((yieldExpr_lockstep hr).mono (Nat.le_succ n))
    (exprList_lockstep hr.toInline (starItem_lockstep hr))

omit hr

theorem asName_lockstep (hT : T.Inline P) :
    Lockstep P n false T T asName asName (P.Same fun m => Option.map m.ident) :=
  .opt (.andThen hT.keyword fun _ _ _ => hT.name)

/-- What can be imported is compared as a dotted name. -/
structure Dotted (P : Pairing) (T : Linkage) (n : Nat) : Prop extends T.Inline P where
  single : Lockstep P n true T T Parser.name Parser.name (P.Same Recast.dotted)
  joined : Lockstep P n true T T dottedName dottedName (P.Same Recast.dotted)
  star : P.Same Recast.dotted "*" "*"

/-- Names that are compared as they are make dotted names that are. -/
theorem Dotted.of_literal (hP : P.Literal) (hT : T.Inline P) : Dotted P T n := by
  have hname : Lockstep P n true T T Parser.name Parser.name Eq :=
    hT.name.imp fun a b hab => by simpa [hP.left, hP.right] using hab
  refine ⟨hT, hname.imp fun a b hab => ?_, ?_, ?_⟩
  · simp [hP.dotted, hab]
  · exact .andThen (.sepBy1Plain hname hT.symbol) fun _ _ hparts =>
      .pure (by simp [hP.dotted, hparts])
  · simp [hP.dotted]

theorem importStmt_lockstep (hT : Dotted P T n) :
    Lockstep P n true T T importStmt importStmt (P.Builds Recast.stmt) :=
  .andThen hT.keyword fun _ _ _ => .bind (.sepBy1 (g := Recast.imported) (.andThen hT.joined
    fun _ _ hname => .bind (asName_lockstep hT.toInline) fun _ _ has =>
      .pure (by simp [hname, has])) hT.symbol)
    fun _ _ hnames => .pure fun _ _ hspan => by simp [hnames, hspan]

theorem importedNames_lockstep (hT : Dotted P T n) :
    Lockstep P n true T T importedNames importedNames (P.Same fun m => List.map m.imported) := by
  have halias : Lockstep P n true T T plainAlias plainAlias (P.Same Recast.imported) :=
    .andThen hT.single fun _ _ hname => .bind (asName_lockstep hT.toInline) fun _ _ has =>
      .pure (by simp [hname, has])
  refine .orElse ?_ (.orElse ?_ (.sepBy1 halias hT.symbol))
  · exact .andThen hT.symbol fun _ _ _ => .pure (by simpa using hT.star)
  · exact (hT.bracketed (.sepEndBy1 halias hT.symbol)).mono (Nat.le_succ n)

theorem relativeLevel_lockstep (hT : T.Inline P) :
    Lockstep P n false T T relativeLevel relativeLevel Eq := by
  refine .bind (.manyPlain (hT.satisfy (fun token htoken => ?_) fun _ => rfl)) fun _ _ hdots =>
    .pure (by rw [hdots])
  cases token with
  | symbol s => simp [Token.isMark] at htoken
  | _ => rfl

theorem importFromStmt_lockstep (hT : Dotted P T n) :
    Lockstep P n true T T importFromStmt importFromStmt (P.Builds Recast.stmt) := by
  refine .andThen (e := false) hT.keyword fun _ _ _ => .bind (relativeLevel_lockstep hT.toInline)
    fun level _ hlevel => .bind (.opt hT.joined) fun module module' hmodule => ?_
  subst hlevel
  have hnames : Lockstep P n false T T
      (do
        Parser.keyword .import_
        let names ← importedNames
        return (Stmt.importFrom · module level names))
      (do
        Parser.keyword .import_
        let names ← importedNames
        return (Stmt.importFrom · module' level names)) (P.Builds Recast.stmt) :=
    .bind hT.keyword fun _ _ _ => .bind (importedNames_lockstep hT) fun _ _ hnames =>
      .pure fun _ _ hspan => by simp [hmodule, hnames, hspan]
  have hnone : module.isNone = module'.isNone := by
    simpa using congrArg Option.isNone hmodule
  rw [hnone]
  split
  · exact .bind (R := Eq) (.fail (e := false) (T := T)) fun _ _ _ => hnames
  · exact hnames

include hr

theorem returnStmt_lockstep :
    Lockstep P n true T T (returnStmt r) (returnStmt r') (P.Builds Recast.stmt) :=
  .andThen hr.keyword fun _ _ _ => .bind (.opt (exprList_lockstep hr.toInline
    (starItem_lockstep hr))) fun _ _ hvalue => .pure fun _ _ hspan => by simp [hvalue, hspan]

theorem raiseStmt_lockstep :
    Lockstep P n true T T (raiseStmt r) (raiseStmt r') (P.Builds Recast.stmt) := by
  refine .andThen hr.keyword fun _ _ _ => .bind (.opt
    (g := fun m => Prod.map m.expr (Option.map m.expr)) (.bind hr.expr
      fun _ _ hexc => .bind (.opt (.andThen hr.keyword fun _ _ _ => hr.expr)) fun _ _ hcause =>
      .pure (by simp [hexc, hcause]))) fun raised raised' hraised => .pure fun _ _ hspan => ?_
  rcases raised with _ | ⟨exc, cause⟩ <;> rcases raised' with _ | ⟨exc', cause'⟩ <;> simp_all

theorem deleteStmt_lockstep :
    Lockstep P n true T T (deleteStmt r) (deleteStmt r') (P.Builds Recast.stmt) :=
  .andThen hr.keyword fun _ _ _ => .bind (.sepEndBy1 (starItem_lockstep hr) hr.symbol)
    fun _ _ htargets => .pure fun _ _ hspan => by simp [htargets, hspan]

theorem assertStmt_lockstep :
    Lockstep P n true T T (assertStmt r) (assertStmt r') (P.Builds Recast.stmt) :=
  .andThen hr.keyword fun _ _ _ => .bind hr.expr fun _ _ htest =>
    .bind (.opt (.andThen hr.symbol fun _ _ _ => hr.expr)) fun _ _ hmsg =>
    .pure fun _ _ hspan => by simp [htest, hmsg, hspan]

theorem typeParam_lockstep :
    Lockstep P n true T T (typeParam r) (typeParam r') (P.Same Recast.typeParam) :=
  .node <| .bind (.optPlain (.orElse hr.symbol hr.symbol)) fun _ _ _ =>
    .andThen hr.name fun _ _ hname =>
    .bind (.opt (.andThen hr.symbol fun _ _ _ => hr.expr)) fun _ _ hbound =>
    .bind (.opt (.andThen hr.symbol fun _ _ _ => hr.expr)) fun _ _ _ =>
    .pure fun _ _ hspan => by simp [hname, hbound, hspan]

theorem typeParams_lockstep : Lockstep P n false T T (typeParams r) (typeParams r')
      (P.Same fun m => List.map m.typeParam) := by
  refine .bind (.opt ((hr.bracketed (.sepEndBy1 (typeParam_lockstep hr) hr.symbol)).mono
    (Nat.le_succ n))) fun params params' hparams => .pure ?_
  cases params <;> cases params' <;> simp_all

theorem typeAlias_lockstep (hP : P.Literal) :
    Lockstep P n true T T (typeAlias r) (typeAlias r') (P.Builds Recast.stmt) :=
  .andThen (hr.word hP) fun _ _ _ => .bind (nameAtom_lockstep hr.toInline) fun _ _ hname =>
    .bind (typeParams_lockstep hr) fun _ _ hparams => .bind hr.symbol fun _ _ _ =>
    .bind hr.expr fun _ _ hvalue => .pure fun _ _ hspan => by
      simp [hname, hparams, hvalue, hspan]

theorem assignTail_lockstep :
    Lockstep P n false T T (assignTail r) (assignTail r') (P.Same AssignTail.recast) := by
  have hside : Lockstep P n true T T (do Parser.symbol .assign; rightSide r)
      (do Parser.symbol .assign; rightSide r') (P.Same Recast.expr) :=
    .andThen hr.symbol fun _ _ _ => rightSide_lockstep hr
  refine .orElse ?_ (.orElse ?_ (.orElse ?_ (.pure rfl)))
  · exact .bind hr.symbol fun _ _ _ => .bind hr.expr fun _ _ hhint =>
      .bind (.opt hside) fun _ _ hvalue => .pure (by simp [AssignTail.recast, hhint, hvalue])
  · refine .bind (hr.satisfy (fun token htoken => ?_) fun _ => rfl) fun _ _ hop =>
      .bind (rightSide_lockstep hr) fun _ _ hvalue =>
        .pure (by simp [AssignTail.recast, hop, hvalue])
    cases token with
    | symbol s => simp [Token.isMark] at htoken
    | _ => rfl
  · exact .bind hside fun _ _ hfirst => .bind (.many hside) fun _ _ hmore =>
      .pure (by simp [AssignTail.recast, hfirst, hmore])

theorem exprStmt_lockstep :
    Lockstep P n true T T (exprStmt r) (exprStmt r') (P.Builds Recast.stmt) := by
  refine .andThen (exprList_lockstep hr.toInline (starItem_lockstep hr)) fun left left' hleft =>
    .bind (assignTail_lockstep hr) fun tail tail' htail => .pure fun span span' hspan => ?_
  cases tail <;> cases tail' <;> simp_all [AssignTail.recast, assignment_recast]

omit hr

/-- A statement that is one keyword. -/
theorem keywordStmt_lockstep (hT : T.Inline P) {k : Keyword} {build : Span → Stmt}
    (h : ∀ (m : Recast) span, m.stmt (build span) = build (span.respan m.offset)) :
    Lockstep P n true T T (do Parser.keyword k; return build) (do Parser.keyword k; return build)
      (P.Builds Recast.stmt) :=
  .andThen hT.keyword fun _ _ _ => .pure fun _ _ hspan => by simp [h, hspan]

/-- A keyword and names after it. -/
theorem scopeStmt_lockstep (hT : T.Inline P) {k : Keyword} {build : Span → List String → Stmt}
    (h : ∀ (m : Recast) span names,
      m.stmt (build span names) = build (span.respan m.offset) (names.map m.ident)) :
    Lockstep P n true T T
      (do
        Parser.keyword k
        let names ← Parser.sepBy1 Parser.name comma
        return (build · names))
      (do
        Parser.keyword k
        let names ← Parser.sepBy1 Parser.name comma
        return (build · names)) (P.Builds Recast.stmt) :=
  .andThen hT.keyword fun _ _ _ => .bind (.sepBy1 hT.name hT.symbol) fun _ _ hnames =>
    .pure fun _ _ hspan => by simp [h, hnames, hspan]

include hr

theorem yieldStmt_lockstep : Lockstep P n true T T
    (yieldExpr r >>= fun value => pure (Stmt.expr · value))
    (yieldExpr r' >>= fun value => pure (Stmt.expr · value)) (P.Builds Recast.stmt) :=
  .andThen ((yieldExpr_lockstep hr).mono (Nat.le_succ _)) fun _ _ hvalue =>
    .pure fun _ _ hspan => by simp [hvalue, hspan]

theorem simpleStmt_lockstep (hP : P.Literal) :
    Lockstep P n true T T (simpleStmt r) (simpleStmt r') (P.Same Recast.stmt) := by
  exact .node <| .orElse (keywordStmt_lockstep hr.toInline fun _ _ => by simp) <|
    .orElse (keywordStmt_lockstep hr.toInline fun _ _ => by simp) <|
    .orElse (keywordStmt_lockstep hr.toInline fun _ _ => by simp) <|
    .orElse (returnStmt_lockstep hr) <| .orElse (raiseStmt_lockstep hr) <|
    .orElse (deleteStmt_lockstep hr) <| .orElse (assertStmt_lockstep hr) <|
    .orElse (scopeStmt_lockstep hr.toInline fun _ _ _ => by simp) <|
    .orElse (scopeStmt_lockstep hr.toInline fun _ _ _ => by simp) <|
    .orElse (importStmt_lockstep (.of_literal hP hr.toInline)) <|
    .orElse (importFromStmt_lockstep (.of_literal hP hr.toInline)) <|
    .orElse (yieldStmt_lockstep hr) <|
    .orElse (typeAlias_lockstep hr hP) (exprStmt_lockstep hr)

end

/-! ### Compound statements -/

section

variable {P : Pairing} {B U : Nat → Linkage} {n depth : Nat} {r r' : ExprRules}

theorem simpleLine_lockstep (hL : Linkage.Layout P B U) (hr : r.Paired P (B depth) n r') :
    Lockstep P n true (B depth) (U depth) (simpleLine r) (simpleLine r')
      (P.Same fun m => List.map m.stmt) :=
  .andThen (.sepEndBy1 (simpleStmt_lockstep hr hL.literal) hr.symbol) fun _ _ hstmts =>
    .bind hL.newline fun _ _ _ => .pure hstmts

/-- An indented block is read at the next depth. -/
theorem block_lockstep {line line' : Parser (List Stmt)} (hL : Linkage.Layout P B U)
    (hr : r.Paired P (B depth) n r')
    (hline : Lockstep P n true (B (depth + 1)) (U (depth + 1)) line line'
      (P.Same fun m => List.map m.stmt)) :
    Lockstep P n true (B depth) (U depth) (block r line) (block r' line')
      (P.Same fun m => List.map m.stmt) := by
  have hline' : Lockstep P n true (B (depth + 1)) (B (depth + 1)) line line'
      (P.Same fun m => List.map m.stmt) :=
    hline.conseq (Nat.le_refl n) id (fun _ _ h => h) hL.block fun _ _ h => h
  refine .orElse ?_ (simpleLine_lockstep hL hr)
  refine .andThen (e := false) hL.newline fun _ _ _ => .bind hL.indent fun _ _ _ =>
    .bind (.many1 hline') fun lines lines' hlines => .bind hL.dedent fun _ _ _ => .pure ?_
  simp only [Pairing.Same, List.map_flatten, hlines]

/-- What the rules for compound statements are given: expressions and suites that keep pace. -/
structure Paced (P : Pairing) (B U : Nat → Linkage) (n : Nat) (r r' : ExprRules)
    (suite suite' : Parser (List Stmt)) : Prop extends Linkage.Layout P B U where
  rules : ∀ depth, r.Paired P (B depth) n r'
  suite : ∀ depth, Lockstep P n true (B depth) (U depth) suite suite'
    (P.Same fun m => List.map m.stmt)

variable {suite suite' : Parser (List Stmt)}

variable (h : Paced P B U n r r' suite suite')

include h

theorem elseSuite_lockstep :
    Lockstep P n false (U depth) (U depth) (elseSuite suite) (elseSuite suite')
      (P.Same fun m => List.map m.stmt) := by
  refine .bind (.opt (.andThen (h.clauseKeyword rfl) fun _ _ _ => h.suite depth))
    fun stmts stmts' hstmts => .pure ?_
  cases stmts <;> cases stmts' <;> simp_all

theorem ifStmt_lockstep : Lockstep P n true (B depth) (U depth) (ifStmt r suite) (ifStmt r' suite')
      (P.Builds Recast.stmt) := by
  have hr := h.rules depth
  refine .andThen hr.keyword fun _ _ _ => .bind hr.expr fun _ _ htest =>
    .bind (h.suite depth) fun _ _ hbody => .bind (.many (g := recastElif) (.andThen
      (.spanOf (h.clauseKeyword rfl)) fun _ _ hmark => .bind hr.expr fun _ _ htest =>
      .bind (h.suite depth) fun _ _ hbody => .pure ?_)) fun _ _ helifs =>
    .bind (elseSuite_lockstep h) fun _ _ horElse => .pure fun _ _ hspan => ?_
  · simp [recastElif, hmark, htest, hbody]
  · simp [htest, hbody, foldr_nestElif_recast, helifs, horElse, hspan]

theorem whileStmt_lockstep :
    Lockstep P n true (B depth) (U depth) (whileStmt r suite) (whileStmt r' suite')
      (P.Builds Recast.stmt) :=
  .andThen (h.rules depth).keyword fun _ _ _ => .bind (h.rules depth).expr fun _ _ htest =>
    .bind (h.suite depth) fun _ _ hbody => .bind (elseSuite_lockstep h) fun _ _ horElse =>
    .pure fun _ _ hspan => by simp [htest, hbody, horElse, hspan]

theorem forStmt_lockstep :
    Lockstep P n true (B depth) (U depth) (forStmt r suite) (forStmt r' suite')
      (P.Builds Recast.stmt) := by
  have hr := h.rules depth
  exact .bind (.optPlain hr.keyword) fun _ _ hasync => .andThen hr.keyword fun _ _ _ =>
    .bind (targetList_lockstep hr) fun _ _ htarget => .bind hr.keyword fun _ _ _ =>
    .bind (exprList_lockstep hr.toInline (starItem_lockstep hr)) fun _ _ hiter =>
    .bind (h.suite depth) fun _ _ hbody => .bind (elseSuite_lockstep h) fun _ _ horElse =>
    .pure fun _ _ hspan => by simp [hasync, htarget, hiter, hbody, horElse, hspan]

variable (hr : r.Paired P T n r')

include hr

omit h

/-- What a handler is for, and the name it is given. -/
theorem handlerHeader_lockstep : Lockstep P n true T T
    (r.expr >>= fun type => asName >>= fun name => pure (type, name))
    (r'.expr >>= fun type => asName >>= fun name => pure (type, name))
    (P.Same fun m => Prod.map m.expr (Option.map m.ident)) :=
  .andThen hr.expr fun _ _ htype => .bind (asName_lockstep hr.toInline) fun _ _ hname =>
    .pure (by simp [htype, hname])

omit hr

theorem handler_lockstep (h : Paced P B U n r r' suite suite') :
    Lockstep P n true (U depth) (U depth) (handler r suite) (handler r' suite')
      (P.Same Recast.handler) := by
  have hr := h.rules depth
  refine .node <| .andThen (h.clauseKeyword rfl) fun _ _ _ => .bind (.optPlain hr.symbol)
    fun _ _ hstar => .bind (.opt (handlerHeader_lockstep hr)) fun header header' hheader =>
    .bind (h.suite depth) fun _ _ hbody => .pure fun _ _ hspan => ?_
  rcases header with _ | ⟨type, name⟩ <;> rcases header' with _ | ⟨type', name'⟩ <;> simp_all

include h

theorem finallySuite_lockstep :
    Lockstep P n true (U depth) (U depth) (finallySuite suite) (finallySuite suite')
      (P.Same fun m => List.map m.stmt) :=
  .andThen (h.clauseKeyword rfl) fun _ _ _ => h.suite depth

theorem tryStmt_lockstep :
    Lockstep P n true (B depth) (U depth) (tryStmt r suite) (tryStmt r' suite')
      (P.Builds Recast.stmt) := by
  refine .andThen (e := true) (h.rules depth).keyword fun _ _ _ => .bind (h.suite depth)
    fun _ _ hbody => .orElse ?_ ?_
  · refine .andThen (.many1 (handler_lockstep h)) fun _ _ hhandlers =>
      .bind (elseSuite_lockstep h) fun _ _ horElse => .bind (.opt (finallySuite_lockstep h))
      fun finals finals' hfinals => .pure fun _ _ hspan => ?_
    cases finals <;> cases finals' <;> simp_all
  · exact .andThen (finallySuite_lockstep h) fun _ _ hfinal => .pure fun _ _ hspan => by
      simp [hbody, hfinal, hspan]

include hr

omit h

theorem withItem_lockstep :
    Lockstep P n true T T (withItem r) (withItem r') (P.Same Recast.withItem) :=
  .andThen hr.expr fun _ _ hcontext => .bind (.opt (.andThen hr.keyword fun _ _ _ => hr.operand))
    fun _ _ hvars => .pure (by simp [hcontext, hvars])

theorem withItems_lockstep :
    Lockstep P n true T T (withItems r) (withItems r') (P.Same fun m => List.map m.withItem) := by
  refine .orElse ?_ (.sepBy1 (withItem_lockstep hr) hr.symbol)
  exact .andThen ((hr.bracketed (.sepEndBy1 (withItem_lockstep hr) hr.symbol)).mono (Nat.le_succ n))
    fun _ _ hitems => .bind (.ahead hr.symbol) fun _ _ _ => .pure hitems

omit hr

include h

theorem withStmt_lockstep :
    Lockstep P n true (B depth) (U depth) (withStmt r suite) (withStmt r' suite')
      (P.Builds Recast.stmt) :=
  .bind (.optPlain (h.rules depth).keyword) fun _ _ hasync =>
    .andThen (h.rules depth).keyword fun _ _ _ => .bind (withItems_lockstep (h.rules depth))
    fun _ _ hitems => .bind (h.suite depth) fun _ _ hbody => .pure fun _ _ hspan => by
      simp [hasync, hitems, hbody, hspan]

omit h in
theorem caseClause_lockstep (h : Paced P B U n r r' suite suite') :
    Lockstep P n true (B depth) (U depth) (caseClause r suite)
      (caseClause r' suite') (P.Same Recast.matchCase) := by
  have hr := h.rules depth
  exact .node <| .andThen (hr.word h.literal) fun _ _ _ =>
    .bind (targetList_lockstep hr) fun _ _ hpattern =>
    .bind (.opt (.andThen hr.keyword fun _ _ _ => nameAtom_lockstep hr.toInline))
      fun _ _ hbinding =>
    .bind (.opt (.andThen hr.keyword fun _ _ _ => hr.expr)) fun _ _ hguard =>
    .bind (h.suite depth) fun _ _ hbody => .pure fun _ _ hspan => by
      simp [hpattern, hbinding, hguard, hbody, hspan]

theorem matchStmt_lockstep :
    Lockstep P n true (B depth) (U depth) (matchStmt r suite) (matchStmt r' suite')
      (P.Builds Recast.stmt) := by
  have hr := h.rules depth
  have hcase : Lockstep P n true (B (depth + 1)) (B (depth + 1))
      (caseClause r suite) (caseClause r' suite') (P.Same Recast.matchCase) :=
    (caseClause_lockstep h).conseq (Nat.le_refl n) id (fun _ _ h => h) h.block fun _ _ h => h
  exact .andThen (hr.word h.literal) fun _ _ _ =>
    .bind (exprList_lockstep hr.toInline (starItem_lockstep hr)) fun _ _ hsubject =>
    .bind hr.symbol fun _ _ _ => .bind h.newline fun _ _ _ => .bind h.indent fun _ _ _ =>
    .bind (.many1 hcase) fun _ _ hcases => .bind h.dedent fun _ _ _ =>
    .pure fun _ _ hspan => by simp [hsubject, hcases, hspan]

theorem functionDef_lockstep (hds : P.Same (fun m => List.map m.expr) ds ds') :
    Lockstep P n true (B depth) (U depth) (functionDef r suite ds)
      (functionDef r' suite' ds') (P.Builds Recast.stmt) := by
  have hr := h.rules depth
  exact .bind (.optPlain hr.keyword) fun _ _ hasync => .andThen hr.keyword fun _ _ _ =>
    .bind hr.name fun _ _ hname => .bind (typeParams_lockstep hr) fun _ _ htypes =>
    .bind ((hr.bracketed (params_lockstep hr true)).mono (Nat.le_succ n)) fun _ _ hparams =>
    .bind (.opt (.andThen hr.symbol fun _ _ _ => hr.expr)) fun _ _ hreturns =>
    .bind (h.suite depth) fun _ _ hbody => .pure fun _ _ hspan => by
      simp [hds, hasync, hname, htypes, hparams, hreturns, hbody, hspan]

theorem classDef_lockstep (hds : P.Same (fun m => List.map m.expr) ds ds') :
    Lockstep P n true (B depth) (U depth) (classDef r suite ds)
      (classDef r' suite' ds') (P.Builds Recast.stmt) := by
  have hr := h.rules depth
  refine .andThen hr.keyword fun _ _ _ => .bind hr.name fun _ _ hname =>
    .bind (typeParams_lockstep hr) fun _ _ htypes =>
    .bind (.opt ((arguments_lockstep hr).mono (Nat.le_succ n))) fun args args' hargs =>
    .bind (h.suite depth) fun _ _ hbody => .pure fun _ _ hspan => ?_
  rcases args with _ | ⟨bases, keywords⟩ <;> rcases args' with _ | ⟨bases', keywords'⟩ <;>
    simp_all

theorem undecorated_lockstep
    (hds : P.Same (fun m => List.map m.expr) ds ds') : Lockstep P n true (B depth) (U depth)
      (functionDef r suite ds <|> classDef r suite ds)
      (functionDef r' suite' ds' <|> classDef r' suite' ds') (P.Builds Recast.stmt) :=
  .orElse (functionDef_lockstep h hds) (classDef_lockstep h hds)

/-- Statements keep pace if definitions do. -/
theorem compoundStmt_lockstep (hS : ∀ xs ys, S xs ys → B depth xs ys)
    (hdefinition : Lockstep P n true S (U depth) (definition r suite) (definition r' suite')
      (P.Builds Recast.stmt)) :
    Lockstep P n true S (U depth) (compoundStmt r suite) (compoundStmt r' suite')
      (P.Same Recast.stmt) := by
  have hbefore {p q : Parser (Span → Stmt)} (hp : Lockstep P n true (B depth)
      (U depth) p q (P.Builds Recast.stmt)) :
      Lockstep P n true S (U depth) p q (P.Builds Recast.stmt) :=
    hp.conseq (Nat.le_refl n) id hS (fun _ _ h => h) fun _ _ h => h
  exact .node <| .orElse (hbefore (ifStmt_lockstep h)) <|
    .orElse (hbefore (whileStmt_lockstep h)) <|
    .orElse (hbefore (tryStmt_lockstep h)) <| .orElse (hbefore (forStmt_lockstep h)) <|
    .orElse (hbefore (withStmt_lockstep h)) <| .orElse (hbefore (matchStmt_lockstep h)) hdefinition

end

end Grammar

end Scrutiny
