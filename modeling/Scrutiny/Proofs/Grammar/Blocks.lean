/-
Which lines open a block.

A line that ends in a colon is followed by one indent, and no other line is: so it is in every
token stream that the grammar accepts.  `Spot` is where one stands between two tokens, as far
as that goes, and `Spot.walk` is how tokens lead from one spot to another, or nowhere, if they
break the rule.

`Brings s pre p post` says that whatever `p` reads leads from a spot with `pre` to one with
`post`.  In a sequence the spot after one part is the spot before the next, so that the rule
for each statement is read off its grammar.  What stands in a header holds no mark of the
layout and leads from a spot in a line to another; and a line of simple statements does not
end in a colon, nor does a decorator.
-/
import Scrutiny.Proofs.Grammar.SoftWords

namespace Scrutiny

variable {spot : Spot} {t : Token}

/-- A place between two tokens. -/
inductive Spot where
  /-- Before a line, or at the end. -/
  | start
  /-- Behind a line that ends in a colon: a block is due. -/
  | due
  /-- In a line, behind a colon or not. -/
  | inside (colon : Bool)
deriving DecidableEq

namespace Spot

/-- Where a token leads, if it may come. -/
def step : Spot → Token → Option Spot
  | start, .dedent => some start
  | due, .indent => some start
  | due, _ => none
  | inside colon, .newline => some (if colon then due else start)
  | _, t => if t.isMark then none else some (inside (t == .symbol .colon))

/-- Where some tokens lead. -/
def walk (spot : Spot) (ts : List Token) : Option Spot := ts.foldlM step spot

@[simp] theorem walk_cons (spot : Spot) (t : Token) (ts : List Token) :
    spot.walk (t :: ts) = (spot.step t).bind (·.walk ts) := rfl

theorem walk_append (spot : Spot) (ts us : List Token) :
    spot.walk (ts ++ us) = (spot.walk ts).bind (·.walk us) := List.foldlM_append

/-- A spot in a line. -/
def Inside (spot : Spot) : Prop := ∃ colon, spot = inside colon

/-- A spot where a token that is no mark may come. -/
def Free (spot : Spot) : Prop := spot ≠ due

theorem step_plain (hfree : spot.Free) (ht : t.isMark = false) :
    spot.step t = some (inside (t == .symbol .colon)) := by
  cases spot with
  | due => exact absurd rfl hfree
  | start | inside colon =>
    cases t with
    | newline | indent | dedent => simp [Token.isMark] at ht
    | _ => rfl

/-- Tokens that are no marks stay in the line; the last one tells where. -/
theorem walk_plain (hfree : spot.Free) {ts : List Token}
    (hts : ∀ t ∈ ts, t.isMark = false) (hne : ts ≠ []) :
    spot.walk ts = some (inside (ts.getLast? == some (.symbol .colon))) := by
  induction ts generalizing spot with
  | nil => exact absurd rfl hne
  | cons t ts ih =>
    rw [List.forall_mem_cons] at hts
    rw [walk_cons, step_plain hfree hts.1, Option.bind_some]
    cases ts with
    | nil => rfl
    | cons u us =>
      have hinside : (inside (t == .symbol .colon)).Free := by simp [Free]
      rw [ih hinside hts.2 (List.cons_ne_nil u us), List.getLast?_cons_cons]

end Spot

namespace Parser

variable {α β : Type} {s : List Lexeme}

/-! ### Leading from spot to spot -/

/-- What a parser reads leads from a spot with one property to a spot with another. -/
def Brings (s : List Lexeme) (pre : Spot → Prop) (p : Parser α) (post : Spot → Prop) : Prop :=
  Reads s p fun ts _ => ∀ spot, pre spot → ∃ next, spot.walk ts = some next ∧ post next

namespace Brings

variable {p q : Parser α} {f : α → Parser β} {pre mid post : Spot → Prop}

theorem pure {a : α} : Brings s pre (pure a) pre :=
  Reads.pure fun spot hspot => ⟨spot, rfl, hspot⟩

theorem fail : Brings s pre (Parser.fail : Parser α) post := Reads.fail

theorem bind (hp : Brings s pre p mid) (hf : ∀ a, Brings s mid (f a) post) :
    Brings s pre (p >>= f) post := by
  refine Reads.bind hp fun ts a hts => (hf a).imp fun us b hus spot hspot => ?_
  obtain ⟨between, hwalk, hbetween⟩ := hts spot hspot
  obtain ⟨next, hnext, hpost⟩ := hus between hbetween
  exact ⟨next, by rw [Spot.walk_append, hwalk, Option.bind_some, hnext], hpost⟩

theorem weaken {pre' post' : Spot → Prop} (hp : Brings s pre p post)
    (hpre : ∀ spot, pre' spot → pre spot) (hpost : ∀ spot, post spot → post' spot) :
    Brings s pre' p post' := by
  refine Reads.imp hp fun ts a hts spot hspot => ?_
  obtain ⟨next, hwalk, hnext⟩ := hts spot (hpre spot hspot)
  exact ⟨next, hwalk, hpost next hnext⟩

theorem orElse (hp : Brings s pre p post) (hq : Brings s pre q post) :
    Brings s pre (p <|> q) post :=
  Reads.orElse hp hq

theorem node {p : Parser (Span → α)} (hp : Brings s pre p post) : Brings s pre (node p) post :=
  Reads.node (Reads.imp hp fun _ _ h _ => h)

theorem spanOf {p : Parser Unit} (hp : Brings s pre p post) : Brings s pre (spanOf p) post :=
  node (bind hp fun _ => pure)

theorem many (hp : Brings s pre p pre) : Brings s pre (many p) pre := by
  refine (Reads.many hp).imp fun ts as hpieces => ?_
  induction hpieces with
  | nil => exact fun spot hspot => ⟨spot, rfl, hspot⟩
  | cons hts _ ih =>
    intro spot hspot
    obtain ⟨between, hwalk, hbetween⟩ := hts spot hspot
    obtain ⟨next, hnext, hpost⟩ := ih between hbetween
    exact ⟨next, by rw [Spot.walk_append, hwalk, Option.bind_some, hnext], hpost⟩

theorem many1 (hp : Brings s pre p pre) : Brings s pre (many1 p) pre :=
  bind hp fun _ => bind (many hp) fun _ => pure

theorem opt (hp : Brings s pre p pre) : Brings s pre (opt p) pre :=
  orElse (bind hp fun _ => pure) pure

/-! ### Tokens -/

theorem token {t : Token} (h : ∀ spot, pre spot → ∃ next, spot.step t = some next ∧ post next) :
    Brings s pre (token t) post := by
  refine Reads.imp .token fun ts _ hts spot hspot => ?_
  obtain ⟨next, hstep, hnext⟩ := h spot hspot
  exact ⟨next, by rw [hts, Spot.walk_cons, hstep]; rfl, hnext⟩

/-- A token that can only come in one place. -/
theorem exactly (next : Spot) (h : spot.step t = some next) :
    Brings s (· = spot) (Parser.token t) (· = next) :=
  token fun _ hspot => ⟨next, by rw [hspot, h], rfl⟩

theorem plain {t : Token} (ht : t.isMark = false) :
    Brings s Spot.Free (Parser.token t) (· = .inside (t == .symbol .colon)) :=
  token fun _ hfree => ⟨_, Spot.step_plain hfree ht, rfl⟩

/-- Nothing is asked of where a token leads. -/
theorem inside (ht : t.isMark = false) : Brings s Spot.Free (Parser.token t) Spot.Inside :=
  (plain ht).weaken (fun _ h => h) fun _ h => ⟨_, h⟩

theorem keyword {k : Keyword} : Brings s Spot.Free (keyword k) Spot.Inside := inside rfl

theorem symbol {t : Symbol} : Brings s Spot.Free (symbol t) Spot.Inside := inside rfl

theorem word {text : String} : Brings s Spot.Free (word text) Spot.Inside := inside rfl

/-- Where a line may begin. -/
theorem start (hp : Brings s Spot.Free p post) : Brings s (· = .start) p post :=
  hp.weaken (fun _ h => by simp [h, Spot.Free]) fun _ h => h

/-- In a line. -/
theorem within (hp : Brings s Spot.Free p post) : Brings s Spot.Inside p post := by
  refine hp.weaken (fun spot hspot => ?_) fun _ h => h
  obtain ⟨colon, rfl⟩ := hspot
  simp [Spot.Free]

end Brings

/-! ### Within a line -/

/-- A parser takes no mark of the layout. -/
def Unbroken (s : List Lexeme) (p : Parser α) : Prop :=
  Reads s p fun ts _ => ∀ t ∈ ts, t.isMark = false

namespace Unbroken

variable {p : Parser α} {R : List Token → α → Prop}

theorem name : Unbroken s name := by
  refine Reads.satisfy fun lexeme _ a ha => ?_
  rw [List.forall_mem_singleton]
  cases htoken : lexeme.token with
  | newline | indent | dedent => simp [htoken] at ha
  | _ => rfl

/-- What keeps pace with itself as far as the next mark takes none. -/
theorem of_lockstep {eats : Bool} {S : α → α → Prop}
    (hp : ∀ mark tail, mark.token.isMark = true → Lockstep .self (s.length + 1) eats
      (InLine (mark :: tail)) (InLine (mark :: tail)) p p S)
    (hreads : Reads s p R) : Unbroken s p := by
  intro c a next hc hresult
  obtain ⟨read, hadv, -⟩ := hreads hc hresult
  refine ⟨read, hadv, List.forall_mem_map.mpr fun x hx => ?_⟩
  by_contra hxmark
  rw [Bool.not_eq_false] at hxmark
  have hmem : x ∈ c.rest := by
    rw [hadv.rest]
    exact List.mem_append_left _ hx
  obtain ⟨mark, tail, hmark, hline⟩ := InLine.exists_of_mem hmem hxmark
  have hlength : c.rest.length < s.length + 1 := Nat.lt_succ_of_le hc.length_le
  obtain ⟨-, left, hleft, -⟩ := InLine.stays (hp mark tail hmark) hlength hline hresult
  obtain ⟨-, body, hbody, hplain⟩ := hline
  -- What is read is a part of the line.
  have hsplit : read ++ left = body := by
    rw [hadv.rest, hleft, ← List.append_assoc] at hbody
    exact List.append_cancel_right hbody
  have hx' := hplain x (hsplit ▸ List.mem_append_left left hx)
  rw [hxmark] at hx'
  exact Bool.noConfusion hx'

/-- Such a parser stays in its line. -/
theorem brings (hp : Unbroken s p) : Brings s Spot.Inside p Spot.Inside := by
  refine Reads.imp hp fun ts _ hts spot hspot => ?_
  obtain ⟨colon, rfl⟩ := hspot
  cases ts with
  | nil => exact ⟨_, rfl, colon, rfl⟩
  | cons t ts =>
    exact ⟨_, Spot.walk_plain (by simp [Spot.Free]) hts (List.cons_ne_nil t ts), _, rfl⟩

/-- Where it does not end in a colon, it does not lead behind one. -/
theorem closes (hp : Unbroken s p) (hcloses : Closes s true p) :
    Brings s Spot.Free p (· = .inside false) := by
  intro c a next hc hresult
  obtain ⟨read, hadv, hplain⟩ := hp hc hresult
  obtain ⟨read', hadv', hne, hlast⟩ := hcloses hc hresult
  have hsame : read' = read := List.append_cancel_right (hadv'.rest.symm.trans hadv.rest)
  subst hsame
  refine ⟨read', hadv, fun spot hfree => ⟨_, Spot.walk_plain hfree hplain (hne rfl), ?_⟩⟩
  rw [beq_eq_false_iff_ne.mpr hlast]

end Unbroken

end Parser

/-- The three rules do not end in a colon and stay in their line. -/
structure ExprRules.Inlined (s : List Lexeme) (r : ExprRules) : Prop extends r.Closes s where
  paired : ∀ mark tail, mark.token.isMark = true →
    r.Paired .self (InLine (mark :: tail)) (s.length + 1) r

theorem ExprRules.upTo_inlined (s : List Lexeme) :
    (ExprRules.upTo (3 * s.length + 3)).Inlined s where
  toCloses := ExprRules.upTo_closes s _
  paired _ tail hmark :=
    ExprRules.upTo_paired (InLine.inline hmark tail) (s.length + 1) (by omega) (by omega)

namespace Grammar

open Scrutiny.Parser (Brings Unbroken)

variable {s : List Lexeme} {r : ExprRules}

section

variable (hr : r.Inlined s)

include hr

theorem expr_unbroken : Unbroken s r.expr :=
  .of_lockstep (fun mark tail hmark => (hr.paired mark tail hmark).expr) hr.exprCloses

theorem items_unbroken : Unbroken s (exprList (starItem r)) :=
  .of_lockstep (fun mark tail hmark =>
      have hpaired := hr.paired mark tail hmark
      exprList_lockstep hpaired.toInline (starItem_lockstep hpaired))
    (exprList_closes (starItem_closes hr.toCloses))

theorem targetList_unbroken : Unbroken s (targetList r) :=
  .of_lockstep (fun mark tail hmark => targetList_lockstep (hr.paired mark tail hmark))
    (targetList_sound hr.toSound)

theorem withItems_unbroken : Unbroken s (withItems r) :=
  .of_lockstep (fun mark tail hmark => withItems_lockstep (hr.paired mark tail hmark))
    (withItems_sound hr.toSound)

theorem typeParams_unbroken : Unbroken s (typeParams r) :=
  .of_lockstep (fun mark tail hmark => typeParams_lockstep (hr.paired mark tail hmark))
    (typeParams_sound hr.toSound)

theorem params_unbroken : Unbroken s (Parser.bracketed .round (params r true)) :=
  .of_lockstep (fun mark tail hmark =>
      have hpaired := hr.paired mark tail hmark
      (hpaired.bracketed (params_lockstep hpaired true)).mono (Nat.le_succ _))
    (Parser.Closes.bracketed (params_sound hr.toSound true))

theorem arguments_unbroken : Unbroken s (arguments r) :=
  .of_lockstep (fun mark tail hmark =>
      (arguments_lockstep (hr.paired mark tail hmark)).mono (Nat.le_succ _))
    (arguments_closes hr.toCloses)

theorem nameAtom_unbroken : Unbroken s nameAtom :=
  .of_lockstep (fun mark tail hmark => nameAtom_lockstep (hr.paired mark tail hmark).toInline)
    nameAtom_sound

theorem asName_unbroken : Unbroken s asName :=
  .of_lockstep (fun mark tail hmark => asName_lockstep (hr.paired mark tail hmark).toInline)
    asName_yields

/-! ### Lines and blocks -/

/-- A line of simple statements opens no block. -/
theorem simpleLine_brings : Brings s Spot.Free (simpleLine r) (· = .start) := by
  have hcloses :
      Parser.Closes s true (Parser.sepEndBy1 (simpleStmt r) (Parser.symbol .semicolon)) :=
    .sepEndBy1 (simpleStmt_closes hr.toCloses) (.token (by decide))
  have hunbroken : Unbroken s (Parser.sepEndBy1 (simpleStmt r) (Parser.symbol .semicolon)) :=
    .of_lockstep (fun mark tail hmark =>
      have hpaired := hr.paired mark tail hmark
      .sepEndBy1 (simpleStmt_lockstep hpaired .moved) hpaired.symbol) hcloses
  exact .bind (hunbroken.closes hcloses) fun _ => .bind (.exactly .start rfl) fun _ => .pure

/-- What follows the colon of a header. -/
theorem block_brings {line : Parser (List Stmt)} (hline : Brings s (· = .start) line (· = .start)) :
    Brings s (· = .inside true) (block r line) (· = .start) := by
  have hindented : Brings s (· = .inside true) (do
      Parser.token .newline
      Parser.token .indent
      let lines ← Parser.many1 line
      Parser.token .dedent
      return lines.flatten) (· = .start) :=
    .bind (.exactly .due rfl) fun _ => .bind (.exactly .start rfl) fun _ =>
      .bind (.many1 hline) fun _ => .bind (.exactly .start rfl) fun _ => .pure
  refine .orElse hindented ((simpleLine_brings hr).weaken ?_ fun _ h => h)
  rintro spot rfl
  simp [Spot.Free]

end

section

variable {suite : Parser (List Stmt)} (hsuite : Brings s Spot.Inside suite (· = .start))

include hsuite

theorem elseSuite_brings : Brings s (· = .start) (elseSuite suite) (· = .start) :=
  .bind (.opt (.start (.bind .keyword fun _ => hsuite))) fun _ => .pure

theorem finallySuite_brings : Brings s (· = .start) (finallySuite suite) (· = .start) :=
  .start (.bind .keyword fun _ => hsuite)

variable (hr : r.Inlined s)

include hr

theorem ifStmt_brings : Brings s (· = .start) (ifStmt r suite) (· = .start) := by
  have hexpr := (expr_unbroken hr).brings
  refine .start <| .bind .keyword fun _ => .bind hexpr fun _ => .bind hsuite fun _ =>
    .bind (.many ?_) fun _ => .bind (elseSuite_brings hsuite) fun _ => .pure
  exact .start <| .bind (.spanOf .keyword) fun _ => .bind hexpr fun _ => .bind hsuite fun _ => .pure

theorem whileStmt_brings : Brings s (· = .start) (whileStmt r suite) (· = .start) :=
  .start <| .bind .keyword fun _ => .bind (expr_unbroken hr).brings fun _ => .bind hsuite fun _ =>
    .bind (elseSuite_brings hsuite) fun _ => .pure

omit hsuite hr in
/-- `async`, where it may stand. -/
theorem async_brings : Brings s Spot.Free (Parser.opt (Parser.keyword .async_)) Spot.Free := by
  refine .opt (Brings.keyword.weaken (fun _ h => h) fun spot hspot => ?_)
  obtain ⟨colon, rfl⟩ := hspot
  simp [Spot.Free]

theorem forStmt_brings : Brings s (· = .start) (forStmt r suite) (· = .start) :=
  .start <| .bind async_brings fun _ => .bind .keyword fun _ =>
    .bind (targetList_unbroken hr).brings fun _ => .bind (.within .keyword) fun _ =>
    .bind (items_unbroken hr).brings fun _ => .bind hsuite fun _ =>
    .bind (elseSuite_brings hsuite) fun _ => .pure

theorem handler_brings : Brings s (· = .start) (handler r suite) (· = .start) := by
  refine .node <| .start <| .bind .keyword fun _ => .bind (.opt (.within .symbol)) fun _ =>
    .bind (.opt ?_) fun _ => .bind hsuite fun _ => .pure
  exact .bind (expr_unbroken hr).brings fun _ => .bind (asName_unbroken hr).brings fun _ => .pure

theorem tryStmt_brings : Brings s (· = .start) (tryStmt r suite) (· = .start) := by
  refine .start <| .bind .keyword fun _ => .bind hsuite fun _ => .orElse ?_ ?_
  · exact .bind (.many1 (handler_brings hsuite hr)) fun _ =>
      .bind (elseSuite_brings hsuite) fun _ =>
        .bind (.opt (finallySuite_brings hsuite)) fun _ => .pure
  · exact .bind (finallySuite_brings hsuite) fun _ => .pure

theorem withStmt_brings : Brings s (· = .start) (withStmt r suite) (· = .start) :=
  .start <| .bind async_brings fun _ => .bind .keyword fun _ =>
    .bind (withItems_unbroken hr).brings fun _ => .bind hsuite fun _ => .pure

theorem caseClause_brings : Brings s (· = .start) (caseClause r suite) (· = .start) := by
  have hbinding : Brings s Spot.Inside (do Parser.keyword .as_; nameAtom) Spot.Inside :=
    .bind (.within .keyword) fun _ => (nameAtom_unbroken hr).brings
  have hguard : Brings s Spot.Inside (do Parser.keyword .if_; r.expr) Spot.Inside :=
    .bind (.within .keyword) fun _ => (expr_unbroken hr).brings
  exact .node <| .start <| .bind .word fun _ => .bind (targetList_unbroken hr).brings fun _ =>
    .bind (.opt hbinding) fun _ => .bind (.opt hguard) fun _ => .bind hsuite fun _ => .pure

theorem matchStmt_brings : Brings s (· = .start) (matchStmt r suite) (· = .start) :=
  .start <| .bind .word fun _ => .bind (items_unbroken hr).brings fun _ =>
    .bind (.within (.plain rfl)) fun _ => .bind (.exactly .due rfl) fun _ =>
    .bind (.exactly .start rfl) fun _ => .bind (.many1 (caseClause_brings hsuite hr)) fun _ =>
    .bind (.exactly .start rfl) fun _ => .pure

theorem functionDef_brings (decorators : List Expr) :
    Brings s (· = .start) (functionDef r suite decorators) (· = .start) := by
  have hreturns : Brings s Spot.Inside (do Parser.symbol .arrow; r.expr) Spot.Inside :=
    .bind (.within .symbol) fun _ => (expr_unbroken hr).brings
  exact .start <| .bind async_brings fun _ => .bind .keyword fun _ =>
    .bind Unbroken.name.brings fun _ =>
    .bind (typeParams_unbroken hr).brings fun _ => .bind (params_unbroken hr).brings fun _ =>
    .bind (.opt hreturns) fun _ => .bind hsuite fun _ => .pure

theorem classDef_brings (decorators : List Expr) :
    Brings s (· = .start) (classDef r suite decorators) (· = .start) :=
  .start <| .bind .keyword fun _ => .bind Unbroken.name.brings fun _ =>
    .bind (typeParams_unbroken hr).brings fun _ =>
    .bind (.opt (arguments_unbroken hr).brings) fun _ => .bind hsuite fun _ => .pure

theorem definition_brings : Brings s (· = .start) (definition r suite) (· = .start) := by
  -- A decorator ends its line, and opens no block.
  have hdecorator : Brings s Spot.Inside r.expr (· = .inside false) :=
    .within ((expr_unbroken hr).closes hr.exprCloses)
  refine .bind (.many ?_) fun decorators =>
    .orElse (functionDef_brings hsuite hr decorators) (classDef_brings hsuite hr decorators)
  exact .start <| .bind .symbol fun _ => .bind hdecorator fun _ =>
    .bind (.exactly .start rfl) fun _ => .pure

theorem compoundStmt_brings : Brings s (· = .start) (compoundStmt r suite) (· = .start) :=
  .node <| .orElse (ifStmt_brings hsuite hr) <| .orElse (whileStmt_brings hsuite hr) <|
    .orElse (tryStmt_brings hsuite hr) <| .orElse (forStmt_brings hsuite hr) <|
    .orElse (withStmt_brings hsuite hr) <| .orElse (matchStmt_brings hsuite hr)
    (definition_brings hsuite hr)

end

theorem lineUpTo_brings (hr : r.Inlined s) (n : Nat) :
    Brings s (· = .start) (lineUpTo r n) (· = .start) := by
  induction n with
  | zero => exact .fail
  | succ n ih =>
    have hsuite : Brings s Spot.Inside (do Parser.symbol .colon; block r (lineUpTo r n))
        (· = .start) :=
      .within <| .bind (.plain rfl) fun _ => block_brings hr ih
    exact .orElse (.bind (compoundStmt_brings hsuite hr) fun _ => .pure)
      (.start (simpleLine_brings hr))

/-- **In the tokens of a module, the lines that end in a colon open a block and no others do.** -/
theorem moduleUpTo_walk {tokens : List Lexeme} {module : Module} {next : Cursor}
    (h : (moduleUpTo tokens.length (Cursor.start tokens)).result = some (module, next)) :
    Spot.walk .start (tokens.map Lexeme.token) = some .start := by
  obtain ⟨lines, mid, hlines, hend⟩ := Parser.bind_result.mp h
  obtain ⟨_, last, heof, -⟩ := Parser.bind_result.mp hend
  have hbrings := Parser.Brings.many
    (lineUpTo_brings (ExprRules.upTo_inlined tokens) (tokens.length + 1))
  obtain ⟨read, hadv, hwalk⟩ := hbrings (List.suffix_refl tokens) hlines
  obtain ⟨next, hnext, rfl⟩ := hwalk .start rfl
  have hrest : mid.rest = [] := (Parser.eof_result.mp heof).1
  have hread : tokens = read := by
    have := hadv.rest
    rwa [hrest, List.append_nil] at this
  rw [hread, hnext]

end Grammar

end Scrutiny
