/-
What a composed parser replies.

The reply of a parser that is made of others follows from theirs.  Each way of composing has
an equation for its whole reply in each case, and from these comes what a success says about
the parts.  A repetition that succeeds is taken apart by induction on its turns
(`Parser.manyWithin_induct`).
-/
import Scrutiny.Grammar.Parser

namespace Scrutiny

variable {c next : Cursor}

theorem Reply.eq_mk {α : Type} {r : Reply α} {found : Option (α × Cursor)}
    (h : r.result = found) : r = ⟨r.far, found⟩ := by
  cases h
  rfl

/-- Reading some tokens leads from one place to another. -/
structure Cursor.Advances (c : Cursor) (read : List Lexeme) (next : Cursor) : Prop where
  rest : c.rest = read ++ next.rest
  edge : next.edge = (read.getLast?.map (·.span.stop)).getD c.edge

namespace Cursor.Advances

theorem refl (c : Cursor) : c.Advances [] c := ⟨rfl, rfl⟩

theorem trans {mid : Cursor} {first second : List Lexeme} (h₁ : c.Advances first mid)
    (h₂ : mid.Advances second next) : c.Advances (first ++ second) next := by
  refine ⟨by rw [h₁.rest, h₂.rest, List.append_assoc], ?_⟩
  rw [h₂.edge, h₁.edge, List.getLast?_append]
  cases second.getLast? <;> simp

theorem suffix {read : List Lexeme} (h : c.Advances read next) : next.rest <:+ c.rest :=
  ⟨read, h.rest.symm⟩

end Cursor.Advances

namespace Parser

variable {α β : Type} {p q : Parser α} {f : α → Parser β} {c next : Cursor} {a : α}

/-! ### The whole reply -/

theorem bind_of_none (h : (p c).result = none) : (p >>= f) c = ⟨(p c).far, none⟩ := by
  change Parser.bind p f c = _
  rw [Parser.bind, Reply.eq_mk h]

variable (h : (p c).result = some (a, next))

include h

theorem bind_of_some :
    (p >>= f) c = ⟨max (p c).far (f a next).far, (f a next).result⟩ := by
  change Parser.bind p f c = _
  rw [Parser.bind, Reply.eq_mk h]

omit h in
theorem orElse_of_none (h : (p c).result = none) :
    (p <|> q) c = ⟨max (p c).far (q c).far, (q c).result⟩ := by
  change Parser.orElse p q c = _
  rw [Parser.orElse, Reply.eq_mk h]

theorem orElse_of_some : (p <|> q) c = p c := by
  change Parser.orElse p q c = _
  rw [Parser.orElse, Reply.eq_mk h]

omit h

theorem node_eq (p : Parser (Span → α)) (c : Cursor) :
    node p c = ⟨(p c).far, (p c).result.map fun found =>
      (found.1 ⟨c.here, found.2.edge⟩, found.2)⟩ := by
  rw [node]
  rcases p c with ⟨far, _ | found⟩
  · rfl
  · rfl

theorem ahead_eq (p : Parser α) (c : Cursor) :
    ahead p c = ⟨(p c).far, (p c).result.map fun found => (found.1, c)⟩ := by
  rw [ahead]
  rcases p c with ⟨far, _ | found⟩
  · rfl
  · rfl

theorem manyWithin_of_none (h : (p c).result = none) (bound : List Lexeme) :
    manyWithin p bound c = ⟨(p c).far, some ([], c)⟩ := by
  unfold manyWithin
  rw [Reply.eq_mk h]

include h

/-- Repetition that is stopped by its bound. -/
theorem manyWithin_last :
    manyWithin p [] c = ⟨(p c).far, some ([a], next)⟩ := by
  unfold manyWithin
  rw [Reply.eq_mk h]

theorem manyWithin_of_some (x : Lexeme) (bound : List Lexeme) :
    manyWithin p (x :: bound) c = ⟨max (p c).far (manyWithin p bound next).far,
      (manyWithin p bound next).result.map fun found => (a :: found.1, found.2)⟩ := by
  rw [manyWithin, Reply.eq_mk h]

omit h in
/-- Repetition that ends here, and what comes after it. -/
theorem manyWithin_bind_of_none {k : List α → Parser β} (h : (p c).result = none)
    (bound : List Lexeme) :
    (manyWithin p bound >>= k) c = ⟨max (p c).far (k [] c).far, (k [] c).result⟩ := by
  have hstop := manyWithin_of_none h bound
  rw [bind_of_some (by rw [hstop]), hstop]

/-- Repetition that goes on, and what comes after it. -/
theorem manyWithin_bind_of_some {k : List α → Parser β}
    (x : Lexeme) (bound : List Lexeme) : (manyWithin p (x :: bound) >>= k) c
      = (p >>= fun a => manyWithin p bound >>= fun as => k (a :: as)) c := by
  have hturn := manyWithin_of_some h x bound
  rw [bind_of_some h]
  cases hrest : (manyWithin p bound next).result with
  | none =>
    rw [hrest] at hturn
    rw [bind_of_none hrest, bind_of_none (by rw [hturn]; rfl), hturn]
  | some found =>
    obtain ⟨as, last⟩ := found
    rw [hrest] at hturn
    have hresult : (manyWithin p (x :: bound) c).result = some (a :: as, last) := by
      rw [hturn]
      rfl
    rw [bind_of_some hrest, bind_of_some hresult, hturn]
    simp only [Nat.max_assoc]

/-! ### What a success says -/

omit h

theorem pure_result {a b : α} :
    ((pure a : Parser α) c).result = some (b, next) ↔ b = a ∧ next = c := by
  change some (a, c) = some (b, next) ↔ _
  simp only [Option.some.injEq, Prod.mk.injEq]
  exact ⟨fun h => ⟨h.1.symm, h.2.symm⟩, fun h => ⟨h.1.symm, h.2.symm⟩⟩

theorem bind_result {b : β} : ((p >>= f) c).result = some (b, next) ↔
    ∃ a mid, (p c).result = some (a, mid) ∧ (f a mid).result = some (b, next) := by
  cases h : (p c).result with
  | none => simp [bind_of_none h]
  | some found =>
    obtain ⟨a, mid⟩ := found
    simp [bind_of_some h, and_assoc]

theorem orElse_result : ((p <|> q) c).result = some (a, next) ↔
    (p c).result = some (a, next) ∨ (p c).result = none ∧ (q c).result = some (a, next) := by
  cases h : (p c).result with
  | none => simp [orElse_of_none h]
  | some found => simp [orElse_of_some h, h]

theorem node_result {p : Parser (Span → α)} : (node p c).result = some (a, next) ↔
    ∃ build, (p c).result = some (build, next) ∧ a = build ⟨c.here, next.edge⟩ := by
  rw [node_eq, Option.map_eq_some_iff]
  constructor
  · rintro ⟨⟨build, last⟩, h, heq⟩
    cases heq
    exact ⟨build, h, rfl⟩
  · rintro ⟨build, h, rfl⟩
    exact ⟨(build, next), h, rfl⟩

theorem eq_of_ahead_result (h : (ahead p c).result = some (a, next)) : next = c := by
  rw [ahead_eq, Option.map_eq_some_iff] at h
  obtain ⟨found, -, heq⟩ := h
  exact (Prod.mk.inj heq).2.symm

theorem satisfy_result {pick : Token → Option α} {a : α}
    (h : (satisfy pick c).result = some (a, next)) :
    ∃ lexeme, pick lexeme.token = some a ∧ c.Advances [lexeme] next := by
  unfold satisfy at h
  split at h
  · simp at h
  · rename_i lexeme rest hrest
    split at h
    · simp at h
    · rename_i found hpick
      simp only [Option.some.injEq, Prod.mk.injEq] at h
      obtain ⟨rfl, rfl⟩ := h
      exact ⟨lexeme, hpick, by rw [hrest]; rfl, rfl⟩

theorem eof_result {a : Unit} : (eof c).result = some (a, next) ↔ c.rest = [] ∧ next = c := by
  unfold eof
  split
  · rename_i hrest
    simp [hrest, eq_comm]
  · rename_i hrest
    simp [hrest]

/-- What holds of repetitions that end at once, or with the last item, or that go on after an
item, holds of all that succeed. -/
theorem manyWithin_induct {M : List Lexeme → Cursor → List α → Cursor → Prop}
    (stop : ∀ bound c, (p c).result = none → M bound c [] c)
    (last : ∀ c a next, (p c).result = some (a, next) → M [] c [a] next)
    (step : ∀ x bound c a mid as next, (p c).result = some (a, mid) →
      (manyWithin p bound mid).result = some (as, next) → M bound mid as next →
      M (x :: bound) c (a :: as) next) {bound : List Lexeme} {as : List α}
    (hresult : (manyWithin p bound c).result = some (as, next)) : M bound c as next := by
  induction bound generalizing c as with
  | nil =>
    cases hfirst : (p c).result with
    | none =>
      rw [manyWithin_of_none hfirst] at hresult
      cases hresult
      exact stop _ _ hfirst
    | some found =>
      rw [manyWithin_last hfirst] at hresult
      cases hresult
      exact last _ _ _ hfirst
  | cons x bound ih =>
    cases hfirst : (p c).result with
    | none =>
      rw [manyWithin_of_none hfirst] at hresult
      cases hresult
      exact stop _ _ hfirst
    | some found =>
      rw [manyWithin_of_some hfirst] at hresult
      obtain ⟨⟨as', last⟩, hmore, heq⟩ := Option.map_eq_some_iff.mp hresult
      cases heq
      exact step _ _ _ _ _ _ _ hfirst hmore (ih hmore)

theorem manyWithin_succeeds (p : Parser α) (bound : List Lexeme) (c : Cursor) :
    ∃ as last, (manyWithin p bound c).result = some (as, last) := by
  induction bound generalizing c with
  | nil =>
    unfold manyWithin
    split
    · exact ⟨_, _, rfl⟩
    · exact ⟨_, _, rfl⟩
  | cons x bound ih =>
    cases hread : (p c).result with
    | none => exact ⟨[], c, by rw [manyWithin_of_none hread]⟩
    | some found =>
      obtain ⟨as, last, hrest⟩ := ih found.2
      refine ⟨found.1 :: as, last, ?_⟩
      rw [manyWithin_of_some hread, hrest]
      rfl

end Parser

end Scrutiny
