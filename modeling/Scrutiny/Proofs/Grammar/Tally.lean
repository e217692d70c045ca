/-
Counting what parsers read.

A parser that succeeds has read some tokens, the ones between the place where it
started and the place where it stopped (`Cursor.Advances`).  A tally says what tokens
are worth in some commutative monoid, so that more tokens are worth the sum.  This
file is about parsers whose results can be valued by looking at the result alone
(`Parser.Totals`): what the result is worth is what the tokens read are worth.

`Totals t m p g` is the form that goes through a parser from left to right.  With `m`
counted already, `p` brings the count to `g` of its result.  There is one rule for
each way of composing parsers, and the rule for a sequence adds what its first part
counts to `m`; at the end of a sequence an equation in the monoid is left.
-/
import Mathlib.Algebra.BigOperators.Group.List.Basic
import Scrutiny.Proofs.Grammar.Replies
import Scrutiny.Proofs.Syntax.Leaves

namespace Scrutiny

/-- A span reaches from the first of some tokens to the last. -/
def Span.Frames (span : Span) (tokens : List Lexeme) : Prop :=
  tokens.head?.map (·.span.start) = some span.start ∧
    tokens.getLast?.map (·.span.stop) = some span.stop

/-- The span between two places frames what was read, if anything was. -/
theorem Cursor.Advances.frames {c next : Cursor} {read : List Lexeme} (h : c.Advances read next)
    (hne : read ≠ []) : Span.Frames ⟨c.here, next.edge⟩ read := by
  constructor
  · obtain ⟨first, more, rfl⟩ := List.exists_cons_of_ne_nil hne
    simp [Cursor.here, h.rest]
  · rw [h.edge, List.getLast?_eq_some_getLast hne]
    rfl

/-! ### Tallies -/

/-- What the tokens of a stream are worth.  It is a relation, because some tokens may
be passed over in more than one way. -/
structure Tally (M : Type) [AddCommMonoid M] where
  /-- The tokens that are read, all of them. -/
  stream : List Lexeme
  weighs : List Lexeme → M → Prop
  /-- What one token is worth. -/
  one : Token → M
  weighs_nil : weighs [] 0
  weighs_append {xs ys : List Lexeme} {x y : M} :
    weighs xs x → weighs ys y → weighs (xs ++ ys) (x + y)
  weighs_one (lexeme : Lexeme) : weighs [lexeme] (one lexeme.token)
  /-- Only names and literals are worth anything. -/
  one_eq_zero {token : Token} : token.isLeaf = false → one token = 0

namespace Parser

variable {α β M : Type} [AddCommMonoid M] {t : Tally M} {m : M}

/-- With `m` counted before it, a parser brings the count to `g` of its result. -/
def Totals (t : Tally M) (m : M) (p : Parser α) (g : α → M) : Prop :=
  ∀ ⦃c a next⦄, c.rest <:+ t.stream → (p c).result = some (a, next) →
    ∃ read x, c.Advances read next ∧ t.weighs read x ∧ m + x = g a

namespace Totals

variable {p q : Parser α} {f : α → Parser β} {g : α → M} {h : β → M} {sep : Parser Unit}

/-! ### Composition -/

theorem pure {a : α} (heq : m = g a) : Totals t m (pure a) g := by
  intro c b next _ hresult
  obtain ⟨rfl, rfl⟩ := pure_result.mp hresult
  exact ⟨[], 0, .refl _, t.weighs_nil, by rw [add_zero, heq]⟩

variable (hp : Totals t 0 p g)

include hp

theorem bind (hf : ∀ a, Totals t (m + g a) (f a) h) : Totals t m (p >>= f) h := by
  intro c b next hc hresult
  obtain ⟨a, mid, hfirst, hsecond⟩ := bind_result.mp hresult
  obtain ⟨read₁, x₁, hadv₁, hweighs₁, htotal₁⟩ := hp hc hfirst
  obtain ⟨read₂, x₂, hadv₂, hweighs₂, htotal₂⟩ := hf a (hadv₁.suffix.trans hc) hsecond
  refine ⟨read₁ ++ read₂, x₁ + x₂, hadv₁.trans hadv₂, t.weighs_append hweighs₁ hweighs₂, ?_⟩
  rw [← htotal₂, ← htotal₁, zero_add, add_assoc]

omit hp in
/-- A first part that is worth nothing leaves the count as it is. -/
theorem skip (hp : Totals t 0 p fun _ => 0) (hf : ∀ a, Totals t m (f a) h) :
    Totals t m (p >>= f) h :=
  bind hp fun a => by rw [add_zero]; exact hf a

/-- A parser whose result is the result of the whole. -/
theorem tail {k : α → M} (heq : ∀ a, m + g a = k a) : Totals t m p k := by
  intro c a next hc hresult
  obtain ⟨read, x, hadv, hweighs, htotal⟩ := hp hc hresult
  exact ⟨read, x, hadv, hweighs, by rw [← heq, ← htotal, zero_add]⟩

omit hp

theorem orElse (hp : Totals t m p g) (hq : Totals t m q g) : Totals t m (p <|> q) g := by
  intro c a next hc hresult
  rcases orElse_result.mp hresult with hresult | ⟨-, hresult⟩
  · exact hp hc hresult
  · exact hq hc hresult

theorem fail : Totals t m Parser.fail g := by
  intro c a next _ hresult
  simp [Parser.fail] at hresult

theorem node {p : Parser (Span → α)} (hp : ∀ span, Totals t m p fun build => g (build span)) :
    Totals t m (node p) g := by
  intro c a next hc hresult
  obtain ⟨build, hbuild, rfl⟩ := node_result.mp hresult
  exact hp _ hc hbuild

theorem ahead : Totals t 0 (ahead p) fun _ => 0 := by
  intro c a next _ hresult
  obtain rfl := eq_of_ahead_result hresult
  exact ⟨[], 0, .refl _, t.weighs_nil, add_zero 0⟩

theorem eof : Totals t 0 eof fun _ => 0 := by
  intro c a next _ hresult
  obtain ⟨-, rfl⟩ := eof_result.mp hresult
  exact ⟨[], 0, .refl _, t.weighs_nil, add_zero 0⟩

/-! ### Tokens -/

theorem satisfy {pick : Token → Option α}
    (hpick : ∀ lexeme ∈ t.stream, ∀ a, pick lexeme.token = some a → t.one lexeme.token = g a) :
    Totals t 0 (satisfy pick) g := by
  intro c a next hc hresult
  obtain ⟨lexeme, hlexeme, hadv⟩ := satisfy_result hresult
  have hmem : lexeme ∈ t.stream := hc.mem (by rw [hadv.rest]; simp)
  exact ⟨[lexeme], _, hadv, t.weighs_one lexeme, by rw [zero_add, hpick lexeme hmem a hlexeme]⟩

/-- A choice of tokens that takes no name and no literal. -/
theorem satisfyMark {pick : Token → Option α}
    (hpick : ∀ text, pick (.name text) = none ∧ pick (.number text) = none ∧
      pick (.string text) = none) : Totals t 0 (Parser.satisfy pick) fun _ => 0 := by
  refine satisfy fun lexeme _ a ha => t.one_eq_zero ?_
  cases htoken : lexeme.token with
  | name text => simp [htoken, (hpick text).1] at ha
  | number text => simp [htoken, (hpick text).2.1] at ha
  | string text => simp [htoken, (hpick text).2.2] at ha
  | _ => rfl

/-- A token that is no name and no literal. -/
theorem token {mark : Token} (hmark : mark.isLeaf = false) :
    Totals t 0 (token mark) fun _ => 0 := by
  refine satisfy fun lexeme _ a ha => ?_
  split at ha
  · rename_i heq
    rw [heq, t.one_eq_zero hmark]
  · simp at ha

theorem keyword {k : Keyword} : Totals t 0 (keyword k) fun _ => 0 := token rfl

theorem symbol {s : Symbol} : Totals t 0 (symbol s) fun _ => 0 := token rfl

theorem name : Totals t 0 name fun text => t.one (.name text) := by
  refine satisfy fun lexeme _ a ha => ?_
  split at ha
  · rename_i text heq
    rw [heq, Option.some.inj ha]
  · simp at ha

theorem word {text : String} : Totals t 0 (word text) fun _ => t.one (.name text) := by
  refine satisfy fun lexeme _ a ha => ?_
  split at ha
  · rename_i heq
    rw [heq]
  · simp at ha

theorem spanOf {p : Parser Unit} (hp : Totals t 0 p fun _ => 0) :
    Totals t 0 (spanOf p) fun _ => 0 :=
  node fun _ => skip hp fun _ => pure rfl

/-! ### Repetition -/

include hp

theorem manyWithin (bound : List Lexeme) :
    Totals t 0 (manyWithin p bound) fun as => (as.map g).sum := by
  intro c as next hc hresult
  revert hc
  refine manyWithin_induct (M := fun _ c as next => c.rest <:+ t.stream → ∃ read x,
    c.Advances read next ∧ t.weighs read x ∧ 0 + x = (as.map g).sum) ?_ ?_ ?_ hresult
  · intro _ c _ _
    exact ⟨[], 0, .refl _, t.weighs_nil, by simp⟩
  · intro c a next hfirst hc
    simpa using hp hc hfirst
  · intro _ _ c a mid as next hfirst _ ih hc
    obtain ⟨read₁, x₁, hadv₁, hweighs₁, htotal₁⟩ := hp hc hfirst
    obtain ⟨read₂, x₂, hadv₂, hweighs₂, htotal₂⟩ := ih (hadv₁.suffix.trans hc)
    refine ⟨read₁ ++ read₂, x₁ + x₂, hadv₁.trans hadv₂, t.weighs_append hweighs₁ hweighs₂, ?_⟩
    rw [zero_add] at htotal₁ htotal₂ ⊢
    simp [htotal₁, htotal₂]

theorem many : Totals t 0 (many p) fun as => (as.map g).sum :=
  fun c _ _ hc hresult => manyWithin hp c.rest hc hresult

theorem many1 : Totals t 0 (many1 p) fun as => (as.map g).sum :=
  bind hp fun a => bind (many hp) fun as => pure (by simp)

theorem opt : Totals t 0 (opt p) fun found => found.elim 0 g :=
  orElse (bind hp fun a => pure (by simp)) (pure rfl)

omit hp in
/-- An optional part that is worth nothing. -/
theorem optSkip (hp : Totals t 0 p fun _ => 0) : Totals t 0 (Parser.opt p) fun _ => 0 :=
  orElse (skip hp fun _ => pure rfl) (pure rfl)

theorem sepBy1 (hsep : Totals t 0 sep fun _ => 0) :
    Totals t 0 (sepBy1 p sep) fun as => (as.map g).sum :=
  bind hp fun a => bind (many (skip hsep fun _ => hp)) fun as => pure (by simp)

theorem sepEndBy1 (hsep : Totals t 0 sep fun _ => 0) :
    Totals t 0 (sepEndBy1 p sep) fun as => (as.map g).sum :=
  bind (sepBy1 hp hsep) fun as => skip (optSkip hsep) fun _ => pure (by simp)

theorem sepEndBy (hsep : Totals t 0 sep fun _ => 0) :
    Totals t 0 (sepEndBy p sep) fun as => (as.map g).sum :=
  orElse (sepEndBy1 hp hsep) (pure rfl)

theorem bracketed {b : Bracket} : Totals t 0 (bracketed b p) g :=
  skip symbol fun _ => bind hp fun a => skip symbol fun _ => pure (by simp)

end Totals

end Parser

end Scrutiny
