/-
What parsers give, and the tokens they took for it.

`Reads s p R` says that whenever `p` succeeds on the rest of a stream `s`, the tokens it
took stand in the relation `R` to its result.  There is a rule for each way of composing
parsers; in a sequence, the later parts are looked at with the tokens of the earlier ones
already taken.

Where it does not matter which tokens were taken, `Yields s p Q` says only that `Q` holds
of every result.
-/
import Scrutiny.Proofs.Grammar.Tally

namespace Scrutiny.Parser

variable {α β : Type} {s : List Lexeme}

/-- On the rest of `s`, the tokens that a parser takes are in a relation to its result. -/
def Reads (s : List Lexeme) (p : Parser α) (R : List Token → α → Prop) : Prop :=
  ∀ ⦃c a next⦄, c.rest <:+ s → (p c).result = some (a, next) →
    ∃ read, c.Advances read next ∧ R (read.map Lexeme.token) a

/-- Some tokens fall into parts, each related to one item of a list. -/
inductive Pieces (R : List Token → α → Prop) : List Token → List α → Prop
  | nil : Pieces R [] []
  | cons {ts us : List Token} {a : α} {as : List α} (ha : R ts a) (has : Pieces R us as) :
      Pieces R (ts ++ us) (a :: as)

namespace Reads

variable {p q : Parser α} {f : α → Parser β} {R S : List Token → α → Prop}
  {T : List Token → β → Prop}

theorem pure {a : α} (h : R [] a) : Reads s (pure a) R := by
  intro c b next _ hresult
  obtain ⟨rfl, rfl⟩ := pure_result.mp hresult
  exact ⟨[], .refl _, h⟩

theorem bind (hp : Reads s p R)
    (hf : ∀ ts a, R ts a → Reads s (f a) fun us b => T (ts ++ us) b) : Reads s (p >>= f) T := by
  intro c b next hc hresult
  obtain ⟨a, mid, hfirst, hsecond⟩ := bind_result.mp hresult
  obtain ⟨read₁, hadv₁, ha⟩ := hp hc hfirst
  obtain ⟨read₂, hadv₂, hb⟩ := hf _ a ha (hadv₁.suffix.trans hc) hsecond
  refine ⟨read₁ ++ read₂, hadv₁.trans hadv₂, ?_⟩
  rw [List.map_append]
  exact hb

theorem imp (hp : Reads s p R) (h : ∀ ts a, R ts a → S ts a) : Reads s p S := by
  intro c a next hc hresult
  obtain ⟨read, hadv, ha⟩ := hp hc hresult
  exact ⟨read, hadv, h _ a ha⟩

theorem orElse (hp : Reads s p R) (hq : Reads s q R) : Reads s (p <|> q) R := by
  intro c a next hc hresult
  rcases orElse_result.mp hresult with hresult | ⟨-, hresult⟩
  · exact hp hc hresult
  · exact hq hc hresult

theorem fail : Reads s Parser.fail R := by
  intro c a next _ hresult
  simp [Parser.fail] at hresult

theorem node {p : Parser (Span → α)} (hp : Reads s p fun ts build => ∀ span, R ts (build span)) :
    Reads s (node p) R := by
  intro c a next hc hresult
  obtain ⟨build, hbuild, rfl⟩ := node_result.mp hresult
  obtain ⟨read, hadv, h⟩ := hp hc hbuild
  exact ⟨read, hadv, h _⟩

theorem satisfy {pick : Token → Option α}
    (h : ∀ lexeme ∈ s, ∀ a, pick lexeme.token = some a → R [lexeme.token] a) :
    Reads s (satisfy pick) R := by
  intro c a next hc hresult
  obtain ⟨lexeme, hlexeme, hadv⟩ := satisfy_result hresult
  exact ⟨[lexeme], hadv, h lexeme (hc.mem (by simp [hadv.rest])) a hlexeme⟩

theorem token {t : Token} : Reads s (token t) fun ts _ => ts = [t] := by
  refine satisfy fun lexeme _ a ha => ?_
  by_cases heq : lexeme.token = t
  · rw [heq]
  · simp [heq] at ha

theorem manyWithin (hp : Reads s p R) (bound : List Lexeme) :
    Reads s (manyWithin p bound) (Pieces R) := by
  intro c as next hc hresult
  revert hc
  refine manyWithin_induct (M := fun _ c as next => c.rest <:+ s → ∃ read,
    c.Advances read next ∧ Pieces R (read.map (·.token)) as) ?_ ?_ ?_ hresult
  · intro _ c _ _
    exact ⟨[], .refl _, .nil⟩
  · intro c a next hfirst hc
    obtain ⟨read, hadv, ha⟩ := hp hc hfirst
    have hone := Pieces.cons ha .nil
    rw [List.append_nil] at hone
    exact ⟨read, hadv, hone⟩
  · intro _ _ c a mid as next hfirst _ ih hc
    obtain ⟨read₁, hadv₁, ha⟩ := hp hc hfirst
    obtain ⟨read₂, hadv₂, has⟩ := ih (hadv₁.suffix.trans hc)
    refine ⟨read₁ ++ read₂, hadv₁.trans hadv₂, ?_⟩
    rw [List.map_append]
    exact .cons ha has

theorem many (hp : Reads s p R) : Reads s (many p) (Pieces R) :=
  fun c _ _ hc hresult => manyWithin hp c.rest hc hresult

theorem opt (hp : Reads s p R) : Reads s (opt p) fun ts found => found.elim (ts = []) (R ts) := by
  refine orElse (bind hp fun ts a ha => pure ?_) (pure rfl)
  rw [List.append_nil]
  exact ha

theorem ahead : Reads s (ahead p) fun ts _ => ts = [] := by
  intro c a next _ hresult
  obtain rfl := eq_of_ahead_result hresult
  exact ⟨[], .refl _, rfl⟩

theorem eof : Reads s eof fun ts _ => ts = [] := by
  intro c a next _ hresult
  obtain ⟨-, rfl⟩ := eof_result.mp hresult
  exact ⟨[], .refl _, rfl⟩

end Reads

/-! ### Results alone -/

/-- On the rest of `s`, a property holds of whatever a parser gives. -/
def Yields (s : List Lexeme) (p : Parser α) (Q : α → Prop) : Prop :=
  Reads s p fun _ => Q

namespace Yields

variable {p q : Parser α} {f : α → Parser β} {Q Q' : α → Prop} {P : β → Prop} {sep : Parser Unit}

theorem pure {a : α} (h : Q a) : Yields s (pure a) Q :=
  Reads.pure h

variable (hp : Yields s p Q)

include hp

theorem bind (hf : ∀ a, Q a → Yields s (f a) P) : Yields s (p >>= f) P :=
  Reads.bind hp fun _ a ha => hf a ha

omit hp in
/-- Nothing is asked of what comes first. -/
theorem skip (hp : Yields s p fun _ => True) (hf : ∀ a, Yields s (f a) P) : Yields s (p >>= f) P :=
  bind hp fun a _ => hf a

theorem imp (h : ∀ a, Q a → Q' a) : Yields s p Q' :=
  Reads.imp hp fun _ => h

theorem orElse (hq : Yields s q Q) : Yields s (p <|> q) Q :=
  Reads.orElse hp hq

omit hp

theorem fail : Yields s Parser.fail Q :=
  Reads.fail

theorem node {p : Parser (Span → α)} (hp : Yields s p fun build => ∀ span, Q (build span)) :
    Yields s (node p) Q :=
  Reads.node hp

/-! ### Tokens -/

theorem satisfy {pick : Token → Option α}
    (h : ∀ lexeme ∈ s, ∀ a, pick lexeme.token = some a → Q a) : Yields s (satisfy pick) Q :=
  Reads.satisfy h

/-- Nothing is asked of a token. -/
theorem any {pick : Token → Option α} : Yields s (Parser.satisfy pick) fun _ => True :=
  satisfy fun _ _ _ _ => trivial

theorem token {t : Token} : Yields s (token t) fun _ => True := any

theorem keyword {k : Keyword} : Yields s (keyword k) fun _ => True := any

theorem symbol {t : Symbol} : Yields s (symbol t) fun _ => True := any

theorem word {text : String} : Yields s (word text) fun _ => True := any

theorem ahead : Yields s (ahead p) fun _ => True :=
  Reads.imp Reads.ahead fun _ _ _ => trivial

theorem eof : Yields s eof fun _ => True :=
  Reads.imp Reads.eof fun _ _ _ => trivial

theorem spanOf {p : Parser Unit} (hp : Yields s p fun _ => True) :
    Yields s (spanOf p) fun _ => True :=
  node (skip hp fun _ => pure fun _ => trivial)

/-! ### Repetition -/

include hp

theorem many : Yields s (many p) fun as => ∀ a ∈ as, Q a := by
  refine Reads.imp (Reads.many hp) fun ts as has => ?_
  induction has with
  | nil => simp
  | cons ha _ ih => simpa using ⟨ha, ih⟩

theorem many1 : Yields s (many1 p) fun as => as ≠ [] ∧ ∀ a ∈ as, Q a :=
  bind hp fun a ha => bind (many hp) fun as has => pure (by simpa using ⟨ha, has⟩)

theorem opt : Yields s (opt p) fun found => ∀ a ∈ found, Q a :=
  orElse (bind hp fun a ha => pure (by simpa using ha)) (pure (by simp))

omit hp in
/-- Nothing is asked of an optional part. -/
theorem optSkip (hp : Yields s p fun _ => True) : Yields s (Parser.opt p) fun _ => True :=
  (opt hp).imp fun _ _ => trivial

theorem sepBy1 (hsep : Yields s sep fun _ => True) :
    Yields s (sepBy1 p sep) fun as => as ≠ [] ∧ ∀ a ∈ as, Q a :=
  bind hp fun a ha => bind (many (skip hsep fun _ => hp)) fun as has =>
    pure (by simpa using ⟨ha, has⟩)

theorem sepEndBy1 (hsep : Yields s sep fun _ => True) :
    Yields s (sepEndBy1 p sep) fun as => as ≠ [] ∧ ∀ a ∈ as, Q a :=
  bind (sepBy1 hp hsep) fun _ has => skip (optSkip hsep) fun _ => pure has

theorem sepEndBy (hsep : Yields s sep fun _ => True) :
    Yields s (sepEndBy p sep) fun as => ∀ a ∈ as, Q a :=
  orElse ((sepEndBy1 hp hsep).imp fun _ has => has.2) (pure (by simp))

theorem bracketed {b : Bracket} : Yields s (bracketed b p) Q :=
  skip symbol fun _ => bind hp fun _ ha => skip symbol fun _ => pure ha

end Yields

end Scrutiny.Parser
