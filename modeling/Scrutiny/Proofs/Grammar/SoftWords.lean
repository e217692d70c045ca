/-
Words that are reserved only in places.

`match` and `type` are names, and a statement that begins with one of them may be an
expression.  Which it is can be told from the line it is on.

A line that can be read as simple statements is no header of a match statement
(`simpleLine_excludes_matchStmt`): the header ends in a colon, and simple statements do not.
That both readings end at the same place follows from neither reaching over the end of the
line.

In front of two names an expression takes the first and stops (`exprStmt_halts`), so where an
expression can be a whole statement no type alias can be read
(`exprStmt_excludes_typeAlias`).
-/
import Scrutiny.Proofs.Grammar.Colons
import Scrutiny.Proofs.Grammar.StmtLockstep

namespace Scrutiny

variable {c next : Cursor} {mark x : Lexeme} {tail xs : List Lexeme}

/-- Reading a token. -/
theorem Parser.token_result {t : Token} {a : Unit}
    (h : (Parser.token t c).result = some (a, next)) :
    ∃ x, x.token = t ∧ c.rest = x :: next.rest := by
  obtain ⟨x, hx, hadv⟩ := Parser.satisfy_result h
  by_cases heq : x.token = t
  · exact ⟨x, heq, hadv.rest⟩
  · simp [heq] at hx

/-! ### Within a line -/

/-- What is left is some tokens of a line and then `rest`; it is compared with itself. -/
def InLine (rest : List Lexeme) : Linkage := fun xs ys =>
  xs = ys ∧ ∃ body, xs = body ++ rest ∧ ∀ x ∈ body, x.token.isMark = false

/-- Tokens compared with themselves. -/
def Pairing.self : Pairing := .moved id id 0

/-- A line goes as far as the next mark. -/
theorem InLine.inline (hmark : mark.token.isMark = true) (tail : List Lexeme) :
    (InLine (mark :: tail)).Inline .self := by
  refine ⟨fun xs ys hxs => ?_⟩
  obtain ⟨rfl, body, rfl, hbody⟩ := hxs
  cases body with
  | nil => exact Or.inr ⟨mark, tail, mark, tail, rfl, rfl, ⟨rfl, rfl⟩, by simp [hmark]⟩
  | cons x body =>
    exact Or.inr ⟨x, _, x, _, rfl, rfl, ⟨rfl, rfl⟩,
      fun _ => ⟨rfl, body, rfl, fun y hy => hbody y (by simp [hy])⟩⟩

/-- What keeps pace with itself on the tokens of a line stays on the line. -/
theorem InLine.stays {α : Type} {p : Parser α} {n : Nat} {eats : Bool} {R : α → α → Prop}
    {rest : List Lexeme}
    (hp : Parser.Lockstep .self n eats (InLine rest) (InLine rest) p p R) {a : α}
    (hn : c.rest.length < n) (hc : InLine rest c.rest c.rest)
    (hresult : (p c).result = some (a, next)) : InLine rest next.rest next.rest := by
  obtain ⟨-, -, ⟨hnone, -⟩ | ⟨_, _, _, _, hleft, -, -, hlast, -⟩⟩ := hp hn hc rfl
  · rw [hnone] at hresult
    simp at hresult
  · rw [hresult] at hleft
    cases hleft
    exact ⟨rfl, hlast.2⟩

/-- A mark on a line is the one that ends it. -/
theorem InLine.of_mark
    (h : InLine (mark :: tail) (x :: xs) (x :: xs)) (hx : x.token.isMark = true) :
    x = mark ∧ xs = tail := by
  obtain ⟨-, body, hbody, hplain⟩ := h
  cases body with
  | nil => exact ⟨(List.cons.inj hbody).1, (List.cons.inj hbody).2⟩
  | cons y body =>
    have heq := (List.cons.inj hbody).1
    have := hplain y (by simp)
    rw [← heq, hx] at this
    simp at this

/-- What is no mark is not the end of its line. -/
theorem InLine.of_plain (hmark : mark.token.isMark = true)
    (h : InLine (mark :: tail) (x :: xs) (x :: xs)) (hx : x.token.isMark = false) :
    InLine (mark :: tail) xs xs := by
  obtain ⟨-, body, hbody, hplain⟩ := h
  cases body with
  | nil =>
    have heq := (List.cons.inj hbody).1
    rw [heq, hmark] at hx
    simp at hx
  | cons y body =>
    exact ⟨rfl, body, (List.cons.inj hbody).2, fun z hz => hplain z (by simp [hz])⟩

/-- Tokens with a mark among them begin with a line. -/
theorem InLine.exists_of_mem (hx : x ∈ xs) (hmark : x.token.isMark = true) :
    ∃ mark tail, mark.token.isMark = true ∧ InLine (mark :: tail) xs xs := by
  have hsome : (xs.find? (·.token.isMark)).isSome = true :=
    List.find?_isSome.mpr ⟨x, hx, hmark⟩
  obtain ⟨mark, hfind⟩ := Option.isSome_iff_exists.mp hsome
  obtain ⟨hmark, body, tail, rfl, hbody⟩ := List.find?_eq_some_iff_append.mp hfind
  exact ⟨mark, tail, hmark, rfl, body, rfl, fun y hy => by simpa using hbody y hy⟩

namespace Grammar

open Scrutiny.Parser (Rejects Skips bind_result pure_result orElse_result node_result token_result)

section

variable {n m : Nat} {c : Cursor}

/-- A line of simple statements ends in something other than a colon. -/
theorem simpleLine_last {r : ExprRules} {stmts : List Stmt}
    (hr : r.Paired .self (InLine (mark :: tail)) m r) (hcloses : r.Closes c.rest)
    (hc : InLine (mark :: tail) c.rest c.rest) (hm : c.rest.length < m)
    (hresult : (simpleLine r c).result = some (stmts, next)) :
    ∃ read, c.rest = read ++ mark :: tail ∧
      (read.map Lexeme.token).getLast? ≠ some (.symbol .colon) := by
  obtain ⟨stmts, mid, hstmts, hline⟩ := bind_result.mp hresult
  obtain ⟨_, after, hnewline, -⟩ := bind_result.mp hline
  obtain ⟨x, hx, hmid⟩ := token_result hnewline
  -- The statements stop at the mark that ends the line.
  have hstays := InLine.stays (.sepEndBy1 (simpleStmt_lockstep hr .moved) hr.symbol) hm hc hstmts
  rw [hmid] at hstays
  obtain ⟨rfl, htail⟩ := hstays.of_mark (by simp [hx, Token.isMark])
  have hends : Parser.Closes c.rest true
      (Parser.sepEndBy1 (simpleStmt r) (Parser.symbol .semicolon)) :=
    .sepEndBy1 (simpleStmt_closes hcloses) (.token (by decide))
  obtain ⟨read, hadv, -, hlast⟩ := hends (List.suffix_refl c.rest) hstmts
  refine ⟨read, ?_, hlast⟩
  rw [hadv.rest, hmid, htail]

/-- The header of a match statement ends its line in a colon. -/
theorem matchStmt_header {r : ExprRules} {suite : Parser (List Stmt)} {build : Span → Stmt}
    (hr : ∀ mark tail, mark.token.isMark = true → r.Paired .self (InLine (mark :: tail)) m r)
    (hsound : r.Sound c.rest) (hm : c.rest.length < m)
    (hresult : (matchStmt r suite c).result = some (build, next)) :
    ∃ front colon mark tail, colon.token = .symbol .colon ∧ mark.token.isMark = true ∧
      c.rest = front ++ colon :: mark :: tail ∧ InLine (mark :: tail) c.rest c.rest := by
  obtain ⟨_, c₁, hword, hresult⟩ := bind_result.mp hresult
  obtain ⟨subject, c₂, hsubject, hresult⟩ := bind_result.mp hresult
  obtain ⟨_, c₃, hcolon, hresult⟩ := bind_result.mp hresult
  obtain ⟨_, c₄, hnewline, -⟩ := bind_result.mp hresult
  obtain ⟨word, hword, hc⟩ := token_result hword
  obtain ⟨colon, hcolon, hc₂⟩ := token_result hcolon
  obtain ⟨newline, hnewline, hc₃⟩ := token_result hnewline
  have hc₁ : c₁.rest <:+ c.rest := ⟨[word], hc.symm⟩
  obtain ⟨read, hadv, -⟩ := exprList_sound (starItem_sound hsound) hc₁ hsubject
  have hrest : c.rest = (word :: read) ++ colon :: newline :: c₄.rest := by
    rw [hc, hadv.rest, hc₂, hc₃, List.cons_append]
  -- The newline behind the colon is the first mark there is.
  have hmem : newline ∈ c.rest := by simp [hrest]
  obtain ⟨mark, tail, hmark, hline⟩ :=
    InLine.exists_of_mem hmem (by simp [hnewline, Token.isMark])
  have hline₁ : InLine (mark :: tail) c₁.rest c₁.rest :=
    InLine.of_plain hmark (hc ▸ hline) (by simp [hword, Token.isMark])
  have hlength : c₁.rest.length < m := Nat.lt_of_le_of_lt hc₁.length_le hm
  have hpaired := hr mark tail hmark
  have hline₂ := InLine.stays (exprList_lockstep hpaired.toInline (starItem_lockstep hpaired))
    hlength hline₁ hsubject
  rw [hc₂, hc₃] at hline₂
  have hline₃ := hline₂.of_plain hmark (by simp [hcolon, Token.isMark])
  obtain ⟨rfl, rfl⟩ := hline₃.of_mark (by simp [hnewline, Token.isMark])
  exact ⟨word :: read, colon, newline, c₄.rest, hcolon, hmark, hrest, hline⟩

/-- **Where there is a line of simple statements, there is no match statement.** -/
theorem simpleLine_excludes_matchStmt (hn : 3 * m ≤ n) (hm : c.rest.length < m)
    {suite : Parser (List Stmt)} (hsimple : (simpleLine (.upTo n) c).result ≠ none) :
    (matchStmt (.upTo n) suite c).result = none := by
  by_contra hmatch
  obtain ⟨⟨stmts, next⟩, hsimple⟩ := Option.ne_none_iff_exists'.mp hsimple
  obtain ⟨⟨build, last⟩, hmatch⟩ := Option.ne_none_iff_exists'.mp hmatch
  have hpaired (mark : Lexeme) (tail : List Lexeme) (hmark : mark.token.isMark = true) :
      (ExprRules.upTo n).Paired .self (InLine (mark :: tail)) m (.upTo n) :=
    ExprRules.upTo_paired (InLine.inline hmark tail) m hn hn
  obtain ⟨front, colon, mark, tail, hcolon, hmark, hheader, hline⟩ :=
    matchStmt_header hpaired (ExprRules.upTo_sound c.rest n) hm hmatch
  obtain ⟨read, hread, hlast⟩ := simpleLine_last (hpaired mark tail hmark)
    (ExprRules.upTo_closes c.rest n) hline hm hsimple
  have hsame : read = front ++ [colon] := by
    have hboth : read ++ mark :: tail = (front ++ [colon]) ++ mark :: tail := by
      rw [← hread, hheader, List.append_assoc, List.singleton_append]
    exact List.append_cancel_right hboth
  simp [hsame, hcolon] at hlast

end

/-! ### Two names in a row -/

end Grammar

/-- Whether a token is a name. -/
def Token.isName : Token → Bool
  | .name _ => true
  | _ => false

namespace Parser

variable {α β : Type} {p q : Parser α} {f : α → Parser β}

/-- In front of a name a parser reads nothing, if it succeeds. -/
def Stays (p : Parser α) : Prop :=
  ∀ ⦃c⦄, c.Faces Token.isName → ∀ a next, (p c).result = some (a, next) → next = c

namespace Stays

theorem of_rejects (hp : Rejects Token.isName p) : Stays p := by
  intro c hc a next hresult
  rw [hp hc] at hresult
  simp at hresult

theorem of_skips (hp : Skips Token.isName p) : Stays p := by
  intro c hc a next hresult
  obtain ⟨b, hb⟩ := hp hc
  rw [hb] at hresult
  cases hresult
  rfl

theorem pure {a : α} : Stays (pure a) :=
  fun _ _ _ _ hresult => (pure_result.mp hresult).2

theorem bind (hp : Stays p) (hf : ∀ a, Stays (f a)) : Stays (p >>= f) := by
  intro c hc b next hresult
  obtain ⟨a, mid, hfirst, hsecond⟩ := bind_result.mp hresult
  obtain rfl := hp hc a mid hfirst
  exact hf a hc b next hsecond

theorem orElse (hp : Stays p) (hq : Stays q) : Stays (p <|> q) := by
  intro c hc a next hresult
  rcases orElse_result.mp hresult with hresult | ⟨-, hresult⟩
  · exact hp hc a next hresult
  · exact hq hc a next hresult

theorem many (hp : Rejects Token.isName p) : Stays (many p) := of_skips (.many hp)

theorem opt (hp : Rejects Token.isName p) : Stays (opt p) := of_skips (.opt hp)

end Stays

/-- In front of two names a parser takes the first and stops, if it succeeds. -/
def Halts (p : Parser α) : Prop :=
  ∀ ⦃c x y rest⦄, c.rest = x :: y :: rest → x.token.isName = true → y.token.isName = true →
    ∀ a next, (p c).result = some (a, next) → next.rest = y :: rest

namespace Halts

theorem of_rejects (hp : Rejects Token.isName p) : Halts p := by
  intro c x y rest hc hx _ a next hresult
  rw [hp (by simpa [Cursor.Faces, hc] using hx)] at hresult
  simp at hresult

theorem name : Halts name := by
  intro c x y rest hc _ _ a next hresult
  obtain ⟨z, -, hadv⟩ := satisfy_result hresult
  rw [hadv.rest] at hc
  exact (List.cons.inj hc).2

theorem fail : Halts (Parser.fail : Parser α) :=
  fun _ _ _ _ _ _ _ _ _ hresult => nomatch hresult

/-- What comes after the name reads nothing in front of the other. -/
theorem bind (hp : Halts p) (hf : ∀ a, Stays (f a)) : Halts (p >>= f) := by
  intro c x y rest hc hx hy b next hresult
  obtain ⟨a, mid, hfirst, hsecond⟩ := bind_result.mp hresult
  have hmid := hp hc hx hy a mid hfirst
  have hfaces : mid.Faces Token.isName := by simpa [Cursor.Faces, hmid] using hy
  rw [hf a hfaces b next hsecond, hmid]

/-- What comes first may be missing. -/
theorem skip (hp : Stays p) (hf : ∀ a, Halts (f a)) : Halts (p >>= f) := by
  intro c x y rest hc hx hy b next hresult
  obtain ⟨a, mid, hfirst, hsecond⟩ := bind_result.mp hresult
  have hfaces : c.Faces Token.isName := by simpa [Cursor.Faces, hc] using hx
  obtain rfl := hp hfaces a mid hfirst
  exact hf a hc hx hy b next hsecond

theorem orElse (hp : Halts p) (hq : Halts q) : Halts (p <|> q) := by
  intro c x y rest hc hx hy a next hresult
  rcases orElse_result.mp hresult with hresult | ⟨-, hresult⟩
  · exact hp hc hx hy a next hresult
  · exact hq hc hx hy a next hresult

theorem node {p : Parser (Span → α)} (hp : Halts p) : Halts (node p) := by
  intro c x y rest hc hx hy a next hresult
  obtain ⟨build, hbuild, -⟩ := node_result.mp hresult
  exact hp hc hx hy build next hbuild

end Halts

end Parser

/-- The three rules stop between two names. -/
structure ExprRules.Halts (r : ExprRules) : Prop where
  expr : Parser.Halts r.expr
  operand : Parser.Halts r.operand
  factor : Parser.Halts r.factor

namespace Grammar

open Scrutiny.Parser (Rejects Stays Halts)

section

variable {r : ExprRules}

theorem nameAtom_halts : Halts nameAtom := .node (.bind .name fun _ => .pure)

theorem atom_halts : Halts (atom r) := by
  refine .orElse nameAtom_halts (.of_rejects ?_)
  refine .orElse (.node (.bind (.satisfy fun t ht => ?_))) <|
    .orElse (.node (.bind (.bind (.satisfy fun t ht => ?_)))) <|
    .orElse (.node (.bind (.bracketed rfl))) <| .orElse (.node (.bind (.bracketed rfl))) <|
    .node (.bracketed rfl)
  all_goals
    cases t with
    | name text => rfl
    | _ => simp [Token.isName] at ht

theorem trailer_rejects : Rejects Token.isName (trailer r) :=
  .node (.bind (.orElse (.bind (.symbol rfl)) (.orElse (.bind (.bind (.bracketed rfl)))
    (.bind (.bracketed rfl)))))

theorem power_halts : Halts (power r) := by
  refine .bind (.skip (.opt (.spanOf (.keyword rfl))) fun _ => ?_) fun _ =>
    .bind (.opt (.bind (.symbol rfl))) fun _ => .pure
  exact .bind (.bind atom_halts fun _ => .bind (.many trailer_rejects) fun _ => .pure)
    fun _ => .pure

theorem signed_rejects : Rejects Token.isName (signed r) := by
  refine .bind (.node (.bind (.satisfy fun t ht => ?_)))
  cases t with
  | name text => rfl
  | _ => simp [Token.isName] at ht

theorem binaryLevel_halts {operand : Parser Expr} {op? : Token → Option BinOp}
    (h : Halts operand) (hname : ∀ text, op? (.name text) = none) :
    Halts (binaryLevel operand op?) := by
  refine .bind h fun _ => .bind (.many (.bind (.satisfy fun t ht => ?_))) fun _ => .pure
  cases t with
  | name text => exact hname text
  | _ => simp [Token.isName] at ht

theorem cmpOp_rejects : Rejects Token.isName cmpOp := by
  refine .orElse (.bind (.keyword rfl)) (.orElse (.bind (.keyword rfl)) (.satisfy fun t ht => ?_))
  cases t with
  | name text => rfl
  | _ => simp [Token.isName] at ht

variable (hr : r.Halts)

include hr

theorem orTest_halts : Halts (orTest r) := by
  have hcomparison : Halts (comparison r) :=
    .bind hr.operand fun _ => .bind (.many (.bind cmpOp_rejects)) fun _ => .pure
  have hnotTest : Halts (notTest r) :=
    .skip (.many (.spanOf (.keyword rfl))) fun _ => .bind hcomparison fun _ => .pure
  have handTest : Halts (andTest r) :=
    .bind hnotTest fun _ => .bind (.many (.bind (.keyword rfl))) fun _ => .pure
  exact .bind handTest fun _ => .bind (.many (.bind (.keyword rfl))) fun _ => .pure

theorem unroll_halts : (unroll r).Halts where
  expr := by
    refine .orElse (.node (.bind nameAtom_halts fun _ => ?_)) (.orElse (.of_rejects ?_) ?_)
    · exact .of_rejects (.bind (.symbol rfl))
    · exact .node (.bind (.keyword rfl))
    · exact .bind (orTest_halts hr) fun _ => .bind (.opt (.bind (.keyword rfl))) fun _ => .pure
  operand := binaryLevel_halts (binaryLevel_halts (binaryLevel_halts (binaryLevel_halts
    (binaryLevel_halts (binaryLevel_halts hr.factor fun _ => rfl) fun _ => rfl) fun _ => rfl)
    fun _ => rfl) fun _ => rfl) fun _ => rfl
  factor := .orElse (.of_rejects signed_rejects) power_halts

/-- In front of two names an expression statement takes the first and stops. -/
theorem exprStmt_halts : Halts (exprStmt r) := by
  have hitem : Halts (starItem r) :=
    .orElse (.of_rejects (.bind (.spanOf (.symbol rfl)))) hr.expr
  have hitems : Halts (exprList (starItem r)) :=
    .node (.bind (.bind hitem fun _ => .bind (.many (.bind (.symbol rfl))) fun _ => .pure)
      fun _ => .bind (.opt (.symbol rfl)) fun _ => .pure)
  have htail : Stays (assignTail r) := by
    refine .orElse (.of_rejects (.bind (.symbol rfl))) <|
      .orElse (.of_rejects (.bind (.satisfy fun t ht => ?_))) <|
      .orElse (.of_rejects (.bind (.bind (.symbol rfl)))) .pure
    cases t with
    | name text => rfl
    | _ => simp [Token.isName] at ht
  exact .bind hitems fun _ => .bind htail fun _ => .pure

end

end Grammar

theorem ExprRules.upTo_halts (n : Nat) : (ExprRules.upTo n).Halts := by
  induction n with
  | zero => exact ⟨.fail, .fail, .fail⟩
  | succ n ih => exact Grammar.unroll_halts ih

/-- Whether a token ends a simple statement. -/
def Token.endsSimple : Token → Bool
  | .newline | .symbol .semicolon => true
  | _ => false

namespace Grammar

open Scrutiny.Parser (bind_result node_result satisfy_result token_result)

/-- **Where an expression is a whole statement, there is no type alias.** -/
theorem exprStmt_excludes_typeAlias {n : Nat} {build : Span → Stmt}
    (hexpr : (exprStmt (.upTo n) c).result = some (build, next))
    (hnext : next.Faces Token.endsSimple) : (typeAlias (.upTo n) c).result = none := by
  by_contra halias
  obtain ⟨⟨other, last⟩, halias⟩ := Option.ne_none_iff_exists'.mp halias
  obtain ⟨_, c₁, hword, halias⟩ := bind_result.mp halias
  obtain ⟨name, c₂, hname, -⟩ := bind_result.mp halias
  obtain ⟨x, hx, hc⟩ := token_result hword
  obtain ⟨_, hname, -⟩ := node_result.mp hname
  obtain ⟨text, c₂, hname, -⟩ := bind_result.mp hname
  obtain ⟨y, hy, hadv⟩ := satisfy_result hname
  have hy : y.token.isName = true := by
    cases htoken : y.token with
    | name text => rfl
    | _ => simp [htoken] at hy
  have hrest : c.rest = x :: y :: c₂.rest := by
    rw [hc, hadv.rest, List.singleton_append]
  have hstop := exprStmt_halts (ExprRules.upTo_halts n) hrest (by simp [hx, Token.isName]) hy
    build next hexpr
  have hends := hnext y (by simp [hstop])
  cases htoken : y.token with
  | name text => simp [htoken, Token.endsSimple] at hends
  | _ => simp [htoken, Token.isName] at hy

end Grammar

end Scrutiny
