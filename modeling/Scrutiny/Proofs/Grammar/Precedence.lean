/-
Precedence and associativity.

A formula is written with names and operators alone, without brackets.  Read from left to
right, the tree that the grammar makes of it gives the formula back (`Expr.inOrder`), and
it respects the table of precedence (`Expr.Respects`), where every expression has the level
of its operator (`Expr.level`): an operand stands at a higher level than the operator that
takes it, and where it may stand at the same level decides how the operators associate.

Most rules of the grammar begin with a token that is in no formula, and so give nothing on
one (`Parser.Never`).  For the others, each rule reads expressions of its own level or
higher (`Spelled`).
-/
import Scrutiny.Grammar.Module
import Scrutiny.Proofs.Grammar.StmtLeaves
import Scrutiny.Proofs.Grammar.Yields

namespace Scrutiny

variable {op : BoolOp} {right : Expr} {ts us : List Token}

/-! ### Formulas -/

/-- Whether a token stands in formulas: names and operators. -/
def Token.inFormula : Token → Bool
  | .name _ => true
  | .symbol mark => match mark with
    | .pipe | .caret | .amp | .lShift | .rShift | .plus | .minus | .star | .slash | .doubleSlash
    | .percent | .atSign | .doubleStar | .tilde | .eqEq | .notEq | .lt | .ltEq | .gt | .gtEq => true
    | _ => false
  | .keyword word => match word with
    | .and_ | .or_ | .not_ | .in_ | .is_ => true
    | _ => false
  | _ => false

/-- The token of a binary operator. -/
def BinOp.token : BinOp → Token
  | .add => .symbol .plus
  | .sub => .symbol .minus
  | .mult => .symbol .star
  | .matMult => .symbol .atSign
  | .div => .symbol .slash
  | .floorDiv => .symbol .doubleSlash
  | .mod => .symbol .percent
  | .pow => .symbol .doubleStar
  | .lShift => .symbol .lShift
  | .rShift => .symbol .rShift
  | .bitOr => .symbol .pipe
  | .bitXor => .symbol .caret
  | .bitAnd => .symbol .amp

/-- The token of an operator before its operand. -/
def UnaryOp.token : UnaryOp → Token
  | .not => .keyword .not_
  | .invert => .symbol .tilde
  | .plus => .symbol .plus
  | .minus => .symbol .minus

/-- The token of a short-circuit operator. -/
def BoolOp.token : BoolOp → Token
  | .and => .keyword .and_
  | .or => .keyword .or_

/-- The tokens of a comparison. -/
def CmpOp.tokens : CmpOp → List Token
  | .eq => [.symbol .eqEq]
  | .notEq => [.symbol .notEq]
  | .lt => [.symbol .lt]
  | .ltE => [.symbol .ltEq]
  | .gt => [.symbol .gt]
  | .gtE => [.symbol .gtEq]
  | .is => [.keyword .is_]
  | .isNot => [.keyword .is_, .keyword .not_]
  | .in => [.keyword .in_]
  | .notIn => [.keyword .not_, .keyword .in_]

mutual

/-- The names and operators of an expression from left to right. -/
def Expr.inOrder : Expr → List Token
  | .name _ id => [.name id]
  | .boolOp _ op values => joinedInOrder op values
  | .binOp _ left op right => left.inOrder ++ op.token :: right.inOrder
  | .unaryOp _ op operand => op.token :: operand.inOrder
  | .compare _ left ops comparators => left.inOrder ++ comparedInOrder ops comparators
  | _ => []

/-- The values of a chain with its operator between them. -/
def joinedInOrder (op : BoolOp) : List Expr → List Token
  | [] => []
  | [e] => e.inOrder
  | e :: es => e.inOrder ++ op.token :: joinedInOrder op es

/-- What is compared to, each behind its operator. -/
def comparedInOrder : List CmpOp → List Expr → List Token
  | op :: ops, e :: es => op.tokens ++ e.inOrder ++ comparedInOrder ops es
  | _, _ => []

end

/-! ### The table -/

/-- The level of a short-circuit operator. -/
def BoolOp.level : BoolOp → Nat
  | .or => 1
  | .and => 2

/-- The level of `not`. -/
def notLevel : Nat := 3

/-- The level of comparisons. -/
def compareLevel : Nat := 4

/-- The level of signs. -/
def signLevel : Nat := 11

/-- The level of a binary operator. -/
def BinOp.level : BinOp → Nat
  | .bitOr => 5
  | .bitXor => 6
  | .bitAnd => 7
  | .lShift | .rShift => 8
  | .add | .sub => 9
  | .mult | .div | .floorDiv | .mod | .matMult => 10
  | .pow => 12

/-- The level of an expression: that of its operator, and the highest for a name. -/
def Expr.level : Expr → Nat
  | .boolOp _ op _ => op.level
  | .unaryOp _ .not _ => notLevel
  | .compare .. => compareLevel
  | .binOp _ _ op _ => op.level
  | .unaryOp .. => signLevel
  | _ => 13

/-- An expression of names and operators whose operands stand at the levels that the table
gives them. -/
inductive Expr.Respects : Expr → Prop
  | name (span : Span) (id : String) : Respects (.name span id)
  /-- A chain is flat: its values stand at a higher level. -/
  | chain (span : Span) {op : BoolOp} {values : List Expr} (hlength : 2 ≤ values.length)
      (hvalues : ∀ e ∈ values, op.level < e.level) (hinner : ∀ e ∈ values, Respects e) :
      Respects (.boolOp span op values)
  | not (span : Span) {operand : Expr} (hoperand : notLevel ≤ operand.level)
      (hinner : Respects operand) : Respects (.unaryOp span .not operand)
  /-- Comparisons chain, and do not nest. -/
  | compare (span : Span) {left : Expr} {ops : List CmpOp} {comparators : List Expr}
      (hops : ops ≠ []) (hlength : ops.length = comparators.length)
      (hleft : compareLevel < left.level) (hright : ∀ e ∈ comparators, compareLevel < e.level)
      (hinnerLeft : Respects left) (hinner : ∀ e ∈ comparators, Respects e) :
      Respects (.compare span left ops comparators)
  /-- All binary operators but the power associate to the left. -/
  | binary (span : Span) {left right : Expr} {op : BinOp} (hop : op ≠ .pow)
      (hleft : op.level ≤ left.level) (hright : op.level < right.level)
      (hinnerLeft : Respects left) (hinnerRight : Respects right) :
      Respects (.binOp span left op right)
  | sign (span : Span) {op : UnaryOp} {operand : Expr} (hop : op ≠ .not)
      (hoperand : signLevel ≤ operand.level) (hinner : Respects operand) :
      Respects (.unaryOp span op operand)
  /-- The power associates to the right, and takes a sign on its right only. -/
  | power (span : Span) {left right : Expr} (hleft : BinOp.pow.level < left.level)
      (hright : signLevel ≤ right.level) (hinnerLeft : Respects left)
      (hinnerRight : Respects right) : Respects (.binOp span left .pow right)

/-- Some tokens are an expression of at least a level. -/
structure Spelled (level : Nat) (tokens : List Token) (e : Expr) : Prop where
  inOrder : e.inOrder = tokens
  respects : e.Respects
  level : level ≤ e.level

theorem Spelled.mono {low high : Nat} {tokens : List Token} {e : Expr} (h : Spelled high tokens e)
    (hle : low ≤ high) : Spelled low tokens e :=
  ⟨h.inOrder, h.respects, Nat.le_trans hle h.level⟩

/-! ### Building expressions -/

theorem Spelled.binary {left : Expr} {op : BinOp}
    (hop : op ≠ .pow) (hleft : Spelled op.level ts left)
    (hright : Spelled (op.level + 1) us right) :
    Spelled op.level (ts ++ op.token :: us) (Grammar.binary left op right) where
  inOrder := by rw [Grammar.binary, Expr.inOrder, hleft.inOrder, hright.inOrder]
  respects := .binary _ hop hleft.level hright.level hleft.respects hright.respects
  level := Nat.le_refl _

/-- Behind the first value of a chain, each has the operator before it. -/
theorem joinedInOrder_cons (op : BoolOp) (e : Expr) (es : List Expr) :
    joinedInOrder op (e :: es) = e.inOrder ++ es.flatMap fun v => op.token :: v.inOrder := by
  induction es generalizing e with
  | nil => simp [joinedInOrder]
  | cons f fs ih =>
    rw [joinedInOrder, ih f]
    · simp
    · simp

/-- Only chains stand below `not`. -/
theorem Expr.notLevel_le {e : Expr} (h : ∀ span op values, e ≠ .boolOp span op values) :
    notLevel ≤ e.level := by
  unfold Expr.level
  split
  · exact absurd rfl (h _ _ _)
  · exact Nat.le_refl _
  · decide
  · rename_i op _
    cases op <;> decide
  · decide
  · decide

theorem BoolOp.level_lt_notLevel (op : BoolOp) : op.level < notLevel := by
  cases op <;> decide

/-- Two values make a chain if the first is not a chain of the same level. -/
theorem Spelled.pair {op : BoolOp} {left right : Expr} {ts us : List Token} (span : Span)
    (hlevel : op.level < left.level) (hleft : Spelled op.level ts left)
    (hright : Spelled (op.level + 1) us right) :
    Spelled op.level (ts ++ op.token :: us) (.boolOp span op [left, right]) := by
  refine ⟨?_, .chain span (Nat.le_refl 2) ?_ ?_, Nat.le_refl _⟩
  · rw [Expr.inOrder, joinedInOrder_cons, hleft.inOrder, ← hright.inOrder]
    simp
  · simpa using ⟨hlevel, hright.level⟩
  · simpa using ⟨hleft.respects, hright.respects⟩

/-- One more value for a chain of the same operator. -/
theorem Spelled.extend {values : List Expr}
    {before : Span} (span : Span) (hleft : Spelled op.level ts (.boolOp before op values))
    (hright : Spelled (op.level + 1) us right) :
    Spelled op.level (ts ++ op.token :: us) (.boolOp span op (values ++ [right])) := by
  cases hleft.respects with
  | chain _ hlength hvalues hinner =>
    refine ⟨?_, .chain _ ?_ ?_ ?_, Nat.le_refl _⟩
    · obtain ⟨first, more, rfl⟩ := List.exists_cons_of_length_pos (l := values) (by omega)
      rw [← hleft.inOrder, ← hright.inOrder, Expr.inOrder, Expr.inOrder, List.cons_append,
        joinedInOrder_cons, joinedInOrder_cons]
      simp
    · rw [List.length_append]
      omega
    · intro e he
      rcases List.mem_append.mp he with he | he
      · exact hvalues e he
      · rw [List.mem_singleton.mp he]
        exact hright.level
    · intro e he
      rcases List.mem_append.mp he with he | he
      · exact hinner e he
      · rw [List.mem_singleton.mp he]
        exact hright.respects

theorem BoolOp.level_lt_of_ne {other : BoolOp} (hne : other ≠ op) (hle : op.level ≤ other.level) :
    op.level < other.level := by
  refine Nat.lt_of_le_of_ne hle ?_
  revert hne
  cases op <;> cases other <;> decide

/-- A chain grows by a value of a higher level. -/
theorem Spelled.chain {left : Expr}
    (hleft : Spelled op.level ts left) (hright : Spelled (op.level + 1) us right) :
    Spelled op.level (ts ++ op.token :: us) (Grammar.chain op left right) := by
  unfold Grammar.chain
  split
  · rename_i span other values
    by_cases hsame : other = op
    · subst hsame
      rw [if_pos rfl]
      exact hleft.extend _ hright
    · -- Another operator, and not at a lower level: it is a single value of the new chain.
      rw [if_neg hsame]
      exact hleft.pair _ (BoolOp.level_lt_of_ne hsame hleft.level) hright
  · rename_i hother
    refine hleft.pair _ (Nat.lt_of_lt_of_le op.level_lt_notLevel (Expr.notLevel_le ?_)) hright
    intro span inner values heq
    exact hother span inner values heq

/-! ### Rules that give nothing -/

namespace Parser

variable {α β : Type} {s : List Lexeme}

/-- On the rest of `s` a parser gives nothing. -/
def Never (s : List Lexeme) (p : Parser α) : Prop :=
  Reads s p fun _ _ => False

theorem Never.reads {p : Parser α} {R : List Token → α → Prop} (h : Never s p) : Reads s p R :=
  Reads.imp h fun _ _ hfalse => hfalse.elim

theorem Never.bind {p : Parser α} {f : α → Parser β} (h : Never s p) : Never s (p >>= f) :=
  Reads.bind h fun _ _ hfalse => hfalse.elim

/-- What comes first does not matter if nothing can follow. -/
theorem Never.after {p : Parser α} {f : α → Parser β} {R : List Token → α → Prop}
    (hp : Reads s p R) (hf : ∀ a, Never s (f a)) : Never s (p >>= f) :=
  Reads.bind hp fun _ a _ => hf a

theorem Never.orElse {p q : Parser α} (hp : Never s p) (hq : Never s q) : Never s (p <|> q) :=
  Reads.orElse hp hq

theorem Never.node {p : Parser (Span → α)} (h : Never s p) : Never s (node p) :=
  Reads.node (Reads.imp h fun _ _ hfalse => hfalse.elim)

theorem Never.satisfy {pick : Token → Option α}
    (h : ∀ lexeme ∈ s, pick lexeme.token = none) : Never s (satisfy pick) :=
  Reads.satisfy fun lexeme hlexeme a ha => by simp [h lexeme hlexeme] at ha

/-- Nothing is repeated no times. -/
theorem Never.many {p : Parser α} (h : Never s p) :
    Reads s (many p) fun ts as => ts = [] ∧ as = [] := by
  refine Reads.imp (Reads.many h) fun ts as has => ?_
  cases has with
  | nil => exact ⟨rfl, rfl⟩
  | cons hfalse => exact hfalse.elim

theorem Never.opt {p : Parser α} (h : Never s p) :
    Reads s (opt p) fun ts found => ts = [] ∧ found = none := by
  refine Reads.orElse (Never.bind h).reads (Reads.pure ⟨rfl, rfl⟩)

/-- One item without separators. -/
theorem Never.sepBy1 {p : Parser α} {sep : Parser Unit} {R : List Token → α → Prop}
    (hp : Reads s p R) (hsep : Never s sep) :
    Reads s (sepBy1 p sep) fun ts as => ∃ a, as = [a] ∧ R ts a := by
  refine Reads.bind hp fun ts a ha => Reads.bind (Never.many (Never.bind hsep)) fun us as has =>
    Reads.pure ?_
  obtain ⟨rfl, rfl⟩ := has
  exact ⟨a, rfl, by simpa using ha⟩

end Parser

/-! ### The rules on a formula -/

/-- Whether a token stands in a line that is a formula. -/
def Token.inLine (token : Token) : Bool :=
  token.inFormula || token == .newline

/-- The three rules read expressions of their levels. -/
structure ExprRules.Spell (s : List Lexeme) (r : ExprRules) : Prop where
  expr : Parser.Reads s r.expr (Spelled 1)
  operand : Parser.Reads s r.operand (Spelled 5)
  factor : Parser.Reads s r.factor (Spelled signLevel)

namespace Grammar

open Scrutiny.Parser (Never Pieces Reads)

section

variable {s : List Lexeme} (hs : ∀ lexeme ∈ s, lexeme.token.inLine = true)

include hs

theorem never_token {t : Token} (ht : t.inLine = false) : Never s (Parser.token t) := by
  refine Never.satisfy fun lexeme hlexeme => if_neg ?_
  rintro rfl
  rw [hs lexeme hlexeme] at ht
  cases ht

theorem never_keyword {β : Type} {k : Keyword} {f : Unit → Parser β}
    (hk : (Token.keyword k).inLine = false) : Never s (Parser.keyword k >>= f) :=
  Never.bind (never_token hs hk)

theorem never_bracketed {α : Type} {b : Bracket} {p : Parser α} : Never s (Parser.bracketed b p) :=
  Never.bind (never_token hs rfl)

omit hs in
theorem nameAtom_spells : Reads s nameAtom (Spelled 13) := by
  refine .node (.bind (R := fun ts id => ts = [.name id]) (.satisfy fun lexeme _ id hid => ?_)
    fun ts id hts => .pure fun span => ?_)
  · split at hid
    · rename_i text htext
      rw [htext, Option.some.inj hid]
    · cases hid
  · subst hts
    exact ⟨rfl, .name span id, Nat.le_refl _⟩

section

variable {r : ExprRules}

/-- Of the atoms only names are in a formula. -/
theorem atom_spells : Reads s (atom r) (Spelled 13) := by
  refine .orElse nameAtom_spells <| .orElse (Never.reads ?_) <| .orElse (Never.reads ?_) <|
    .orElse (Never.reads ?_) <| .orElse (Never.reads ?_) (Never.reads ?_)
  · refine .node (.bind (.satisfy fun lexeme hlexeme => ?_))
    have htoken := hs lexeme hlexeme
    split <;> simp_all [Token.inLine, Token.inFormula]
  · refine .node (.bind (.bind (.satisfy fun lexeme hlexeme => ?_)))
    have htoken := hs lexeme hlexeme
    split <;> simp_all [Token.inLine, Token.inFormula]
  · exact .node (.bind (never_bracketed hs))
  · exact .node (.bind (never_bracketed hs))
  · exact .node (never_bracketed hs)

theorem never_trailer : Never s (trailer r) := by
  refine .node (.bind (.orElse ?_ (.orElse ?_ ?_)))
  · exact .bind (never_token hs rfl)
  · exact .bind (.bind (never_bracketed hs))
  · exact .bind (never_bracketed hs)

theorem primary_spells : Reads s (primary r) (Spelled 13) := by
  refine .bind (atom_spells hs) fun ts value hvalue =>
    .bind (Never.many (never_trailer hs)) fun us trailers htrailers => .pure ?_
  obtain ⟨rfl, rfl⟩ := htrailers
  simpa using hvalue

theorem awaitPrimary_spells : Reads s (awaitPrimary r) (Spelled 13) := by
  refine .bind (Never.opt (.node (.bind (never_token hs rfl)))) fun ts mark hmark =>
    .bind (primary_spells hs) fun us value hvalue => .pure ?_
  obtain ⟨rfl, rfl⟩ := hmark
  simpa using hvalue

variable (hr : r.Spell s)

include hr

theorem power_spells : Reads s (power r) (Spelled BinOp.pow.level) := by
  refine .bind (awaitPrimary_spells hs) fun ts base hbase =>
    .bind (.opt (R := fun us e => ∃ tail, us = BinOp.pow.token :: tail ∧ Spelled signLevel tail e)
      (.bind .token fun us _ hus => hr.factor.imp ?_)) fun us exponent hexponent => .pure ?_
  · intro vs e he
    exact ⟨vs, by rw [hus]; rfl, he⟩
  · cases exponent with
    | none =>
      obtain rfl : us = [] := hexponent
      simpa using hbase.mono (by decide)
    | some exponent =>
      obtain ⟨tail, rfl, he⟩ := hexponent
      refine ⟨?_, .power _ hbase.level he.level hbase.respects he.respects, Nat.le_refl _⟩
      show base.inOrder ++ BinOp.pow.token :: exponent.inOrder = _
      rw [hbase.inOrder, he.inOrder, List.append_nil]

omit hs in
theorem signed_spells : Reads s (signed r) (Spelled signLevel) := by
  refine .bind (R := fun ts found => ts = [found.1.token] ∧ found.1 ≠ .not)
    (.node (.bind
      (.satisfy (R := fun ts op => ts = [op.token] ∧ op ≠ .not) fun lexeme _ op hop => ?_)
      fun ts op hts => .pure fun _ => by simpa using hts)) fun ts found hfound =>
    .bind hr.factor fun us operand hoperand => .pure ?_
  · split at hop
    all_goals first
      | (rename_i heq; rw [heq, ← Option.some.inj hop]; exact ⟨rfl, by simp⟩)
      | cases hop
  · obtain ⟨op, mark⟩ := found
    obtain ⟨rfl, hne⟩ := hfound
    refine ⟨?_, .sign _ hne hoperand.level hoperand.respects, ?_⟩
    · rw [Expr.inOrder, hoperand.inOrder]
      simp
    · cases op with
      | not => exact absurd rfl hne
      | _ => exact Nat.le_refl _

end

omit hs in
/-- A level of operators that associate to the left. -/
theorem binaryLevel_spells {operand : Parser Expr} {op? : Token → Option BinOp} {level : Nat}
    (hoperand : Reads s operand (Spelled (level + 1)))
    (hop : ∀ t op, op? t = some op → t = op.token ∧ op.level = level ∧ op ≠ .pow) :
    Reads s (binaryLevel operand op?) (Spelled level) := by
  refine .bind hoperand fun ts left hleft => .bind (.many
    (R := fun us item => ∃ tail, us = item.1.token :: tail ∧ item.1.level = level ∧
      item.1 ≠ .pow ∧ Spelled (level + 1) tail item.2)
    (.bind (.satisfy (R := fun us op => us = [op.token] ∧ op.level = level ∧ op ≠ .pow)
      fun lexeme _ op hpick => ?_) fun us op hus => .bind hoperand fun vs right hright => .pure ?_))
    fun us rest hrest => .pure ?_
  · obtain ⟨htoken, hlevel, hne⟩ := hop _ _ hpick
    exact ⟨by rw [htoken], hlevel, hne⟩
  · obtain ⟨rfl, hlevel, hne⟩ := hus
    exact ⟨vs, by simp, hlevel, hne, hright⟩
  · rw [List.append_nil]
    have hstart : Spelled level ts left := hleft.mono (Nat.le_succ level)
    clear hleft
    -- The operators are taken up from left to right.
    induction hrest generalizing ts left with
    | nil => simpa using hstart
    | @cons us vs item rest hitem _ ih =>
      obtain ⟨op, right⟩ := item
      obtain ⟨tail, rfl, rfl, hne, hright⟩ := hitem
      rw [← List.append_assoc]
      exact ih _ _ (.binary hne hstart hright)

omit hs in
theorem bitOr_spells {r : ExprRules} (hr : r.Spell s) : Reads s (bitOr r) (Spelled 5) := by
  refine binaryLevel_spells (binaryLevel_spells (binaryLevel_spells (binaryLevel_spells
    (binaryLevel_spells (binaryLevel_spells hr.factor ?_) ?_) ?_) ?_) ?_) ?_
  all_goals intro t op hop
  · unfold product? at hop
    split at hop <;> cases hop <;> exact ⟨rfl, rfl, by decide⟩
  · unfold sum? at hop
    split at hop <;> cases hop <;> exact ⟨rfl, rfl, by decide⟩
  · unfold shift? at hop
    split at hop <;> cases hop <;> exact ⟨rfl, rfl, by decide⟩
  · unfold bitAnd? at hop
    split at hop <;> cases hop
    exact ⟨rfl, rfl, by decide⟩
  · unfold bitXor? at hop
    split at hop <;> cases hop
    exact ⟨rfl, rfl, by decide⟩
  · unfold bitOr? at hop
    split at hop <;> cases hop
    exact ⟨rfl, rfl, by decide⟩

omit hs in
theorem cmpOp_spells : Reads s cmpOp fun ts op => ts = op.tokens := by
  refine .orElse ?_ (.orElse ?_ (.satisfy fun lexeme _ op hop => ?_))
  · refine .bind .token fun ts _ hts => .bind .token fun us _ hus => .pure ?_
    simp [hts, hus, CmpOp.tokens]
  · refine .bind .token fun ts _ hts => .bind .token fun us _ hus => .pure ?_
    simp [hts, hus, CmpOp.tokens]
  · split at hop
    all_goals first
      | (rename_i heq; rw [heq, ← Option.some.inj hop]; rfl)
      | cases hop

omit hs in
/-- A chain of one operator, from left to right. -/
theorem chained_spells (op : BoolOp) {p : Parser Expr} {k : Keyword}
    (hp : Reads s p (Spelled (op.level + 1))) (hk : Token.keyword k = op.token) :
    Reads s (do
      let left ← p
      let rest ← Parser.many (do Parser.keyword k; p)
      return rest.foldl (chain op) left) (Spelled op.level) := by
  refine .bind hp fun ts left hleft => .bind (.many
    (R := fun us e => ∃ tail, us = op.token :: tail ∧ Spelled (op.level + 1) tail e)
    (.bind .token fun us _ hus => hp.imp fun vs e he => ⟨vs, by rw [hus, hk]; rfl, he⟩))
    fun us rest hrest => .pure ?_
  rw [List.append_nil]
  have hstart : Spelled op.level ts left := hleft.mono (Nat.le_succ _)
  clear hleft
  induction hrest generalizing ts left with
  | nil => simpa using hstart
  | @cons us vs e rest he _ ih =>
    obtain ⟨tail, rfl, he⟩ := he
    rw [← List.append_assoc]
    exact ih _ _ (.chain hstart he)

section

variable {r : ExprRules} (hr : r.Spell s)

include hr

omit hs in
theorem comparison_spells : Reads s (comparison r) (Spelled compareLevel) := by
  refine .bind hr.operand fun ts left hleft => .bind (.many
    (R := fun us item => ∃ tail, us = item.1.tokens ++ tail ∧ Spelled 5 tail item.2)
    (.bind cmpOp_spells fun us op hus => .bind hr.operand fun vs right hright => .pure ?_))
    fun us rest hrest => .pure ?_
  · exact ⟨vs, by simp [hus], hright⟩
  · rw [List.append_nil]
    unfold comparisonOf
    split
    · rename_i hnone
      cases hrest with
      | nil => simpa using hleft.mono (by decide)
      | cons => simp at hnone
    · rename_i op last hlast
      have hspelled : comparedInOrder (rest.map Prod.fst) (rest.map Prod.snd) = us ∧
          ∀ item ∈ rest, compareLevel < item.2.level ∧ item.2.Respects := by
        clear hlast
        induction hrest with
        | nil => simp [comparedInOrder]
        | @cons us vs item rest hitem _ ih =>
          obtain ⟨tail, rfl, hright⟩ := hitem
          refine ⟨?_, ?_⟩
          · rw [List.map_cons, List.map_cons, comparedInOrder, ih.1, hright.inOrder]
          · exact List.forall_mem_cons.mpr ⟨⟨hright.level, hright.respects⟩, ih.2⟩
      refine ⟨?_, .compare _ ?_ (by simp) hleft.level ?_ hleft.respects ?_, Nat.le_refl _⟩
      · rw [Expr.inOrder, hleft.inOrder, hspelled.1]
      · rintro hnil
        simp [List.map_eq_nil_iff.mp hnil] at hlast
      · intro e he
        obtain ⟨item, hitem, rfl⟩ := List.mem_map.mp he
        exact (hspelled.2 item hitem).1
      · intro e he
        obtain ⟨item, hitem, rfl⟩ := List.mem_map.mp he
        exact (hspelled.2 item hitem).2

omit hs in
theorem notTest_spells : Reads s (notTest r) (Spelled notLevel) := by
  refine .bind (.many (R := fun ts _ => ts = [UnaryOp.not.token])
    (.node (.bind .token fun ts _ hts => .pure fun _ => by simp [hts, UnaryOp.token])))
    fun ts marks hmarks => .bind (comparison_spells hr) fun us operand hoperand => .pure ?_
  rw [List.append_nil]
  induction hmarks with
  | nil => exact hoperand.mono (by decide)
  | @cons ts vs mark marks hmark _ ih =>
    subst hmark
    refine ⟨?_, .not _ ih.level ih.respects, Nat.le_refl _⟩
    rw [List.foldr_cons, Expr.inOrder, ih.inOrder]
    simp

omit hs in
theorem orTest_spells : Reads s (orTest r) (Spelled 1) :=
  chained_spells .or (chained_spells .and (notTest_spells hr) rfl) rfl

theorem expr_spells : Reads s (unroll r).expr (Spelled 1) := by
  refine .orElse (Never.reads ?_) (.orElse (Never.reads ?_) ?_)
  · exact .node (.after nameAtom_spells fun _ => .bind (never_token hs rfl))
  · exact .node (.bind (never_token hs rfl))
  · refine .bind (orTest_spells hr) fun ts body hbody =>
      .bind (Never.opt (.bind (never_token hs rfl))) fun us tail htail => .pure ?_
    obtain ⟨rfl, rfl⟩ := htail
    simpa using hbody

theorem unroll_spell : (unroll r).Spell s where
  expr := expr_spells hs hr
  operand := bitOr_spells hr
  factor := .orElse (signed_spells hr) ((power_spells hs hr).imp fun _ _ h => h.mono (by decide))

end

end

end Grammar

theorem ExprRules.upTo_spell {s : List Lexeme} (hs : ∀ lexeme ∈ s, lexeme.token.inLine = true)
    (n : Nat) : (ExprRules.upTo n).Spell s := by
  induction n with
  | zero => exact ⟨.fail, .fail, .fail⟩
  | succ n ih => exact Grammar.unroll_spell hs ih

/-! ### A line that is a formula -/

/-- Some tokens are an expression that is a statement, unless they begin by unpacking. -/
def StatedBy (ts : List Token) (stmt : Stmt) : Prop :=
  ts.head? = some (.symbol .star) ∨ ∃ span e, stmt = .expr span e ∧ Spelled 1 ts e

/-- Some tokens are one such statement and the end of its line. -/
def LineStatedBy (ts : List Token) (stmts : List Stmt) : Prop :=
  ∃ us stmt, ts = us ++ [.newline] ∧ stmts = [stmt] ∧ StatedBy us stmt

namespace Grammar

open Scrutiny.Parser (Never Pieces Reads)

section

variable {s : List Lexeme} (hs : ∀ lexeme ∈ s, lexeme.token.inLine = true)
  {r : ExprRules} (hr : r.Spell s)

include hs hr

theorem exprList_spells : Reads s (exprList (starItem r)) fun ts e =>
    ts.head? = some (.symbol .star) ∨ Spelled 1 ts e := by
  refine .node (.bind (Never.sepBy1 (R := fun ts e => ts.head? = some (.symbol .star) ∨
    Spelled 1 ts e) (.orElse ?_ (hr.expr.imp fun _ _ => .inr)) (never_token hs rfl))
    fun ts items hitems => .bind (Never.opt (never_token hs rfl)) fun us trailing hnone => .pure ?_)
  · refine .bind (R := fun ts _ => ts = [.symbol .star])
      (.node (.bind .token fun _ _ h => .pure fun _ => by rw [h, List.append_nil]))
      fun ts _ hts => .bind hr.operand fun us _ _ => .pure (.inl ?_)
    rw [hts]
    rfl
  · obtain ⟨e, rfl, he⟩ := hitems
    obtain ⟨rfl, rfl⟩ := hnone
    intro span
    simpa [tupleUnlessSingle] using he

omit hr in
theorem assignTail_spells : Reads s (assignTail r) fun ts tail => ts = [] ∧ tail = .nothing := by
  refine .orElse (Never.reads (.bind (never_token hs rfl))) <|
    .orElse (Never.reads (.bind (.satisfy fun lexeme hlexeme => ?_))) <|
    .orElse (Never.reads (.bind (.bind (never_token hs rfl)))) (.pure ⟨rfl, rfl⟩)
  have htoken := hs lexeme hlexeme
  split
  · rename_i hmark
    rw [hmark] at htoken
    cases htoken
  · rfl

omit hr in
theorem never_typeAlias : Never s (typeAlias r) := by
  refine .after .token fun _ => .after nameAtom_spells fun _ => .after (R := fun _ _ => True) ?_
    fun _ => .bind (never_token hs rfl)
  exact .bind (Never.opt (never_bracketed hs)) fun _ _ _ => .pure trivial

/-- Of the simple statements only expressions are formulas. -/
theorem simpleStmt_spells : Reads s (simpleStmt r) StatedBy := by
  have hword {β : Type} {k : Keyword} {f : Unit → Parser β} {R : List Token → β → Prop}
      (hk : (Token.keyword k).inLine = false) : Reads s (Parser.keyword k >>= f) R :=
    (never_keyword hs hk).reads
  refine .node <| .orElse (hword rfl) <| .orElse (hword rfl) <| .orElse (hword rfl) <|
    .orElse (hword rfl) <| .orElse (hword rfl) <| .orElse (hword rfl) <| .orElse (hword rfl) <|
    .orElse (hword rfl) <| .orElse (hword rfl) <| .orElse (hword rfl) <| .orElse (hword rfl) <|
    .orElse (Never.reads (.bind (.node (never_keyword hs rfl)))) <|
    .orElse (never_typeAlias hs).reads ?_
  refine .bind (exprList_spells hs hr) fun ts e he => .bind (assignTail_spells hs)
    fun us tail htail => .pure fun span => ?_
  obtain ⟨rfl, rfl⟩ := htail
  rw [List.append_nil, List.append_nil]
  exact he.imp id fun he => ⟨span, e, rfl, he⟩

theorem simpleLine_spells : Reads s (simpleLine r) LineStatedBy := by
  refine .bind (R := fun ts stmts => ∃ stmt, stmts = [stmt] ∧ StatedBy ts stmt)
    (.bind (Never.sepBy1 (simpleStmt_spells hs hr) (never_token hs rfl)) fun ts stmts hstmts =>
      .bind (Never.opt (never_token hs rfl)) fun us _ hnone => .pure ?_)
    fun ts stmts hstmts => .bind .token fun us _ hus => .pure ?_
  · rw [hnone.1, List.append_nil, List.append_nil]
    exact hstmts
  · obtain ⟨stmt, rfl, hstmt⟩ := hstmts
    exact ⟨ts, stmt, by rw [hus, List.append_nil], rfl, hstmt⟩

/-- Compound statements begin with a word that is in no formula, or have a colon. -/
theorem never_compoundStmt {suite : Parser (List Stmt)} : Never s (compoundStmt r suite) := by
  have hword {β : Type} {k : Keyword} {f : Unit → Parser β}
      (hk : (Token.keyword k).inLine = false) : Never s (Parser.keyword k >>= f) :=
    never_keyword hs hk
  have hasync : Reads s (Parser.opt (Parser.keyword .async_))
      fun ts found => ts = [] ∧ found = none :=
    Never.opt (never_token hs rfl)
  refine .node <| .orElse (hword rfl) <| .orElse (hword rfl) <| .orElse (hword rfl) <|
    .orElse (.after hasync fun _ => hword rfl) <| .orElse (.after hasync fun _ => hword rfl) <|
    .orElse ?_ ?_
  · exact .after .token fun _ => .after (exprList_spells hs hr) fun _ => .bind (never_token hs rfl)
  · refine .after (.many (R := fun _ _ => True) ?_) fun _ =>
      .orElse (.after hasync fun _ => hword rfl) (hword rfl)
    exact .bind .token fun _ _ _ => .bind hr.expr fun _ _ _ => .bind .token fun _ _ _ =>
      .pure trivial

theorem lineUpTo_spells (n : Nat) : Reads s (lineUpTo r n) LineStatedBy := by
  cases n with
  | zero => exact .fail
  | succ n =>
    refine .orElse ?_ (simpleLine_spells hs hr)
    exact .bind (never_compoundStmt hs hr) fun _ _ hfalse => hfalse.elim

end

theorem moduleUpTo_spells {s : List Lexeme} (hs : ∀ lexeme ∈ s, lexeme.token.inLine = true)
    (n : Nat) : Reads s (moduleUpTo n) fun ts module =>
      ∃ lines, module.body = lines.flatten ∧ Pieces LineStatedBy ts lines := by
  refine .bind (.many (lineUpTo_spells hs (ExprRules.upTo_spell hs _) _)) fun ts lines hlines =>
    .bind .eof fun us _ hus => .pure ⟨lines, rfl, ?_⟩
  rwa [hus, List.append_nil, List.append_nil]

end Grammar

/-- A formula with the end of its line is one line. -/
theorem Parser.Pieces.single_line {formula : List Token} {lines : List (List Stmt)}
    (hformula : ∀ t ∈ formula, t ≠ .newline)
    (h : Pieces LineStatedBy (formula ++ [.newline]) lines) :
    ∃ stmt, lines = [[stmt]] ∧ StatedBy formula stmt := by
  generalize htokens : formula ++ [.newline] = tokens at h
  cases h with
  | nil => simp at htokens
  | @cons _ rest _ more hline hmore =>
    obtain ⟨us, stmt, rfl, rfl, hstmt⟩ := hline
    rcases List.eq_nil_or_concat rest with rfl | ⟨init, last, rfl⟩
    · rw [List.append_nil] at htokens
      obtain rfl := List.append_cancel_right htokens
      generalize hnil : ([] : List Token) = none at hmore
      cases hmore with
      | nil => exact ⟨stmt, rfl, hstmt⟩
      | cons hline =>
        obtain ⟨us, stmt, rfl, -⟩ := hline
        simp at hnil
    · -- A second line would put the end of the first into the formula.
      have hinit : formula = us ++ [.newline] ++ init := by
        rw [List.concat_eq_append, ← List.append_assoc] at htokens
        exact (List.append_inj' htokens rfl).1
      exact absurd rfl (hformula .newline (by simp [hinit]))

/--
**Operators bind as the table says.**  Let the tokens of a text be names and operators and
the end of their line.  If the text parses, it is one expression, which read from left to
right is those tokens, and in which every operand stands at a level that the table of
precedence allows there.
-/
theorem formula_precedence {source : String} {stream : TokenStream} {formula : List Token}
    {module : Module} (htokens : tokenize source = .ok stream)
    (hline : stream.tokens.map Lexeme.token = formula ++ [.newline])
    (hformula : ∀ t ∈ formula, t.inFormula = true)
    (hstar : formula.head? ≠ some (.symbol .star)) (hparse : parse source = .ok module) :
    ∃ span e, module.body = [.expr span e] ∧ e.inOrder = formula ∧ e.Respects := by
  have hs : ∀ lexeme ∈ stream.tokens, lexeme.token.inLine = true := by
    intro lexeme hlexeme
    have hmem : lexeme.token ∈ formula ++ [.newline] := hline ▸ List.mem_map_of_mem hlexeme
    rcases List.mem_append.mp hmem with hmem | hmem
    · simp [Token.inLine, hformula _ hmem]
    · simp [Token.inLine, List.mem_singleton.mp hmem]
  obtain ⟨again, last, hagain, hread⟩ := parse_cases hparse
  obtain rfl : stream = again := Except.ok.inj (htokens.symm.trans hagain)
  obtain ⟨read, hadv, lines, hbody, hlines⟩ :=
    Grammar.moduleUpTo_spells hs _ (List.suffix_refl _) hread
  have hall : read = stream.tokens := by
    simpa [Grammar.moduleUpTo_rest hread, Cursor.start] using hadv.rest.symm
  rw [hall, hline] at hlines
  obtain ⟨stmt, rfl, hstated⟩ := hlines.single_line fun t ht heq => by
    simpa [heq, Token.inFormula] using hformula t ht
  rcases hstated with hhead | ⟨span, e, rfl, he⟩
  · exact absurd hhead hstar
  · exact ⟨span, e, hbody, he.inOrder, he.respects⟩

/-- A formula with an operator of every level. -/
theorem formula_precedence_mixed : ∃ stream formula module,
    tokenize "not a < b or - c ** - d * e | f and g not in h\n" = .ok stream ∧
    stream.tokens.map Lexeme.token = formula ++ [.newline] ∧
    (∀ t ∈ formula, t.inFormula = true) ∧ formula.head? ≠ some (.symbol .star) ∧
    parse "not a < b or - c ** - d * e | f and g not in h\n" = .ok module ∧
    ∃ span e, module.body = [.expr span e] ∧ e.inOrder = formula ∧ e.Respects := by
  generalize hsource : "not a < b or - c ** - d * e | f and g not in h\n" = source
  generalize hformula : [Token.keyword .not_, .name "a", .symbol .lt, .name "b", .keyword .or_,
    .symbol .minus, .name "c", .symbol .doubleStar, .symbol .minus, .name "d", .symbol .star,
    .name "e", .symbol .pipe, .name "f", .keyword .and_, .name "g", .keyword .not_, .keyword .in_,
    .name "h"] = formula
  have htokens : (tokenize source).toOption.map (fun stream => stream.tokens.map Lexeme.token) =
      some (formula ++ [.newline]) := by
    rw [← hsource, ← hformula]
    decide +kernel
  have hall : ∀ t ∈ formula, t.inFormula = true := by
    rw [← hformula]
    decide
  have hhead : formula.head? ≠ some (.symbol .star) := by
    rw [← hformula]
    decide
  have hok : (parse source).toOption.isSome = true := by
    rw [← hsource]
    decide +kernel
  cases hstream : tokenize source with
  | error errors => simp [hstream, Except.toOption] at htokens
  | ok stream =>
    have hline : stream.tokens.map Lexeme.token = formula ++ [.newline] := by
      simpa [hstream, Except.toOption] using htokens
    cases hparse : parse source with
    | error errors => simp [hparse, Except.toOption] at hok
    | ok module =>
      exact ⟨stream, formula, module, rfl, hline, hall, hhead, rfl,
        formula_precedence hstream hline hall hhead hparse⟩

end Scrutiny
