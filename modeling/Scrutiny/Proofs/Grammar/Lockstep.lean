/-
Two runs of the grammar in lockstep.

The same tokens may be read twice, at different places of different streams or under
different names, with rules unrolled to different depths.  `Lockstep` says that two parsers
keep pace: from cursors whose remaining tokens are related, both succeed or both fail, they
read the same number of tokens, what they return is the same once it is recast, and they
were stopped at corresponding tokens.

The relation between the remaining tokens is an index of the judgement, one before
and one after, so that a rule can say where in a line it starts and ends.  The number
of tokens is an index too: unrolled rules keep pace only as long as their turns last,
and reading a token pays for a turn (`Lockstep.step`).
-/
import Scrutiny.Proofs.Grammar.Replies
import Scrutiny.Proofs.Syntax.Recast
import Scrutiny.Proofs.Token.Steps

namespace Scrutiny

variable {c d next next' : Cursor} {e : Bool}

theorem Token.rename_id (t : Token) : t.rename id = t := by
  cases t <;> rfl

/-- Tokens that agree under other names are two names, or the same. -/
theorem Token.eq_of_rename {f g : String → String} {t t' : Token} (h : t.rename f = t'.rename g) :
    (∃ a b, t = .name a ∧ t' = .name b ∧ f a = g b) ∨ t = t' ∧ ∀ text, t ≠ .name text := by
  cases t with
  | name a =>
    cases t' with
    | name b => exact Or.inl ⟨a, b, rfl, rfl, by simpa using h⟩
    | _ => simp at h
  | _ =>
    cases t' with
    | name b => simp at h
    | _ => exact Or.inr ⟨h, nofun⟩

/-- How the tokens of two streams are compared. -/
structure Pairing where
  /-- What is done to the first stream and its trees before they are compared. -/
  left : Recast
  /-- What is done to the second stream and its trees. -/
  right : Recast
  /-- How many more tokens there are before the second. -/
  shift : Nat

namespace Pairing

variable (P : Pairing)

/-- Two tokens are the same once they are recast. -/
structure Alike (x y : Lexeme) : Prop where
  token : x.token.rename P.left.ident = y.token.rename P.right.ident
  span : x.span.respan P.left.offset = y.span.respan P.right.offset

/-- Two values are the same once they are recast. -/
@[simp] abbrev Same {α β : Type} (f : Recast → α → β) (a b : α) : Prop := f P.left a = f P.right b

/-- Two ways of building a value over a span give the same. -/
abbrev Builds {α β : Type} (f : Recast → α → β) (build build' : Span → α) : Prop :=
  ∀ s s', s.respan P.left.offset = s'.respan P.right.offset → P.Same f (build s) (build' s')

/-- Names are compared as they are. -/
structure Literal : Prop where
  left : P.left.ident = id
  right : P.right.ident = id
  dotted : P.left.dotted = P.right.dotted

/-- Two cursors have moved on by the same number of tokens. -/
structure Moved (eats : Bool) (c d next next' : Cursor) : Prop where
  read : ∃ k, c.rest.length = next.rest.length + k ∧ d.rest.length = next'.rest.length + k ∧
    next.index = c.index + k ∧ (eats = true → 0 < k)
  index : next'.index = next.index + P.shift
  /-- Nothing was read, or what was read starts and stops at the same places. -/
  span : next = c ∧ next' = d ∨
    Span.respan P.left.offset ⟨c.here, next.edge⟩ = Span.respan P.right.offset ⟨d.here, next'.edge⟩

variable {P}

/-- Two streams compared up to where their tokens stand. -/
def moved (u v : Nat → Nat) (shift : Nat) : Pairing := ⟨.respan u, .respan v, shift⟩

theorem Literal.moved {u v : Nat → Nat} {shift : Nat} : (moved u v shift).Literal := ⟨rfl, rfl, rfl⟩

theorem Literal.token_eq (hP : P.Literal) {x y : Lexeme} (h : P.Alike x y) : x.token = y.token := by
  have htoken := h.token
  rwa [hP.left, hP.right, Token.rename_id, Token.rename_id] at htoken

/-- A token that is no name is found in both or in neither. -/
theorem Alike.token_eq_iff {x y : Lexeme} (h : P.Alike x y) {t : Token}
    (ht : ∀ text, t ≠ .name text) : x.token = t ↔ y.token = t := by
  rcases Token.eq_of_rename h.token with ⟨a, b, hx, hy, -⟩ | ⟨heq, -⟩
  · exact iff_of_false (fun hxt => ht a (hxt ▸ hx)) fun hyt => ht b (hyt ▸ hy)
  · rw [heq]

theorem Moved.refl (hindex : d.index = c.index + P.shift) : P.Moved false c d c d :=
  ⟨⟨0, rfl, rfl, rfl, by simp⟩, hindex, Or.inl ⟨rfl, rfl⟩⟩

theorem Moved.trans {eats eats' : Bool} {mid mid' : Cursor}
    (h₁ : P.Moved eats c d mid mid') (h₂ : P.Moved eats' mid mid' next next') :
    P.Moved (eats || eats') c d next next' := by
  obtain ⟨k₁, hc₁, hd₁, hi₁, hpos₁⟩ := h₁.read
  obtain ⟨k₂, hc₂, hd₂, hi₂, hpos₂⟩ := h₂.read
  refine ⟨⟨k₁ + k₂, by omega, by omega, by omega, fun heats => ?_⟩, h₂.index, ?_⟩
  · rcases Bool.or_eq_true _ _ ▸ heats with heats | heats
    · have := hpos₁ heats
      omega
    · have := hpos₂ heats
      omega
  · rcases h₁.span with ⟨rfl, rfl⟩ | hspan₁
    · exact h₂.span
    · rcases h₂.span with ⟨rfl, rfl⟩ | hspan₂
      · exact Or.inr hspan₁
      · simp only [Span.respan, Span.mk.injEq] at hspan₁ hspan₂ ⊢
        exact Or.inr ⟨hspan₁.1, hspan₂.2⟩

theorem Moved.imp {eats eats' : Bool} (h : P.Moved eats c d next next')
    (himp : eats' = true → eats = true) : P.Moved eats' c d next next' := by
  obtain ⟨k, hc, hd, hi, hpos⟩ := h.read
  exact ⟨⟨k, hc, hd, hi, fun heats => hpos (himp heats)⟩, h.index, h.span⟩

/-- What reads a token lies between two corresponding places. -/
theorem Moved.ends (h : P.Moved true c d next next') :
    Span.respan P.left.offset ⟨c.here, next.edge⟩
      = Span.respan P.right.offset ⟨d.here, next'.edge⟩ := by
  obtain ⟨k, hc, -, -, hpos⟩ := h.read
  rcases h.span with ⟨rfl, -⟩ | hspan
  · have := hpos rfl
    omega
  · exact hspan

end Pairing

/-- A relation between what is left of two streams. -/
abbrev Linkage : Type := List Lexeme → List Lexeme → Prop

/-- Two replies match. -/
structure Reply.Matches {α : Type} (P : Pairing) (eats : Bool) (S : Linkage) (R : α → α → Prop)
    (c d : Cursor) (x y : Reply α) : Prop where
  /-- Attempts were stopped at corresponding tokens. -/
  far : max y.far P.shift = x.far + P.shift
  bound : x.far ≤ c.index + c.rest.length
  result : x.result = none ∧ y.result = none ∨
    ∃ a b next next', x.result = some (a, next) ∧ y.result = some (b, next') ∧
      R a b ∧ S next.rest next'.rest ∧ P.Moved eats c d next next'

/-! ### Replies that match -/

namespace Reply.Matches

open Scrutiny.Parser (bind_of_none bind_of_some orElse_of_none orElse_of_some node_eq)

variable {α β : Type} {P : Pairing} {eats e : Bool} {S S' : Linkage} {p q p' q' : Parser α}
  {f f' : α → Parser β} {R : α → α → Prop} {Q : β → β → Prop} {c d : Cursor}

theorem seq (h : (p c).Matches P eats S R c d (q d))
    (hf : ∀ a b next next', (p c).result = some (a, next) → R a b → S next.rest next'.rest →
      P.Moved eats c d next next' → (f a next).Matches P e S' Q next next' (f' b next')) :
    ((p >>= f) c).Matches P (eats || e) S' Q c d ((q >>= f') d) := by
  obtain ⟨hfar, hbound, ⟨hx, hy⟩ | ⟨a, b, mid, mid', hx, hy, hab, hS, hmoved⟩⟩ := h
  · rw [bind_of_none hx, bind_of_none hy]
    exact ⟨hfar, hbound, Or.inl ⟨rfl, rfl⟩⟩
  · obtain ⟨k, hc, -, hi, -⟩ := hmoved.read
    obtain ⟨hfar', hbound', hresult'⟩ := hf a b mid mid' hx hab hS hmoved
    rw [bind_of_some hx, bind_of_some hy]
    refine ⟨by simp only; omega, by simp only; omega, ?_⟩
    rcases hresult' with hnone | ⟨a', b', next, next', hx', hy', hab', hS', hmoved'⟩
    · exact Or.inl hnone
    · exact Or.inr ⟨a', b', next, next', hx', hy', hab', hS', hmoved.trans hmoved'⟩

theorem orElse (h : (p c).Matches P eats S R c d (q d))
    (h' : (p c).result = none → (p' c).Matches P eats S R c d (q' d)) :
    ((p <|> p') c).Matches P eats S R c d ((q <|> q') d) := by
  obtain ⟨hfar, hbound, ⟨hx, hy⟩ | ⟨a, b, next, next', hx, hy, hab⟩⟩ := h
  · obtain ⟨hfar', hbound', hresult'⟩ := h' hx
    rw [orElse_of_none hx, orElse_of_none hy]
    exact ⟨by simp only; omega, by simp only; omega, hresult'⟩
  · rw [orElse_of_some hx, orElse_of_some hy]
    exact ⟨hfar, hbound, Or.inr ⟨a, b, next, next', hx, hy, hab⟩⟩

theorem node {g : Recast → α → β} {p q : Parser (Span → α)}
    (h : (p c).Matches P true S (P.Builds g) c d (q d)) :
    (Parser.node p c).Matches P true S (P.Same g) c d (Parser.node q d) := by
  obtain ⟨hfar, hbound, hresult⟩ := h
  rw [node_eq, node_eq]
  refine ⟨hfar, hbound, ?_⟩
  rcases hresult with ⟨hx, hy⟩ | ⟨a, b, next, next', hx, hy, hab, hS', hmoved⟩
  · simp [hx, hy]
  · simp only [hx, hy]
    exact Or.inr ⟨_, _, next, next', rfl, rfl, hab _ _ hmoved.ends, hS', hmoved⟩

theorem imp (h : (p c).Matches P eats S R c d (q d)) {R' : α → α → Prop}
    (heats : e = true → eats = true) (hS : ∀ xs ys, S xs ys → S' xs ys)
    (hR : ∀ a b, R a b → R' a b) : (p c).Matches P e S' R' c d (q d) := by
  obtain ⟨hfar, hbound, hresult⟩ := h
  refine ⟨hfar, hbound, ?_⟩
  rcases hresult with hnone | ⟨a, b, next, next', hx, hy, hab, hS', hmoved⟩
  · exact Or.inl hnone
  · exact Or.inr ⟨a, b, next, next', hx, hy, hR a b hab, hS _ _ hS', hmoved.imp heats⟩

end Reply.Matches

namespace Parser

variable {α β : Type}

/-- Two parsers keep pace on fewer than `n` tokens. -/
def Lockstep (P : Pairing) (n : Nat) (eats : Bool) (S S' : Linkage) (p q : Parser α)
    (R : α → α → Prop) : Prop :=
  ∀ ⦃c d⦄, c.rest.length < n → S c.rest d.rest → d.index = c.index + P.shift →
    (p c).Matches P eats S' R c d (q d)

namespace Lockstep

variable {P : Pairing} {n m : Nat} {eats eats' : Bool} {S S' S'' : Linkage}
  {p q p' q' : Parser α} {f f' : α → Parser β} {R : α → α → Prop} {Q : β → β → Prop}

/-! ### Composition -/

theorem pure {a b : α} (h : R a b) : Lockstep P n false S S (Pure.pure a) (Pure.pure b) R := by
  intro c d _ hS hindex
  refine ⟨?_, Nat.zero_le _, Or.inr ⟨a, b, c, d, rfl, rfl, h, hS, .refl hindex⟩⟩
  change max 0 P.shift = 0 + P.shift
  omega

theorem zero : Lockstep P 0 eats S S' p q R :=
  fun _ _ hn => (Nat.not_lt_zero _ hn).elim

/-- Nothing is asked where there are no tokens to compare. -/
theorem absurd : Lockstep P n eats (fun _ _ => False) S' p q R := fun _ _ _ hS => hS.elim

/-- The judgement with less said about fewer tokens. -/
theorem conseq (h : Lockstep P n eats S S' p q R) {T T' : Linkage} {R' : α → α → Prop}
    (hm : m ≤ n) (heats : eats' = true → eats = true) (hT : ∀ xs ys, T xs ys → S xs ys)
    (hT' : ∀ xs ys, S' xs ys → T' xs ys) (hR : ∀ a b, R a b → R' a b) :
    Lockstep P m eats' T T' p q R' := by
  intro c d hlt hTS hindex
  exact (h (by omega) (hT _ _ hTS) hindex).imp heats hT' hR

theorem mono (h : Lockstep P n eats S S' p q R) (hm : m ≤ n) : Lockstep P m eats S S' p q R :=
  h.conseq hm id (fun _ _ h => h) (fun _ _ h => h) fun _ _ h => h

theorem imp (h : Lockstep P n eats S S' p q R) {R' : α → α → Prop} (hR : ∀ a b, R a b → R' a b) :
    Lockstep P n eats S S' p q R' :=
  h.conseq (Nat.le_refl n) id (fun _ _ h => h) (fun _ _ h => h) hR

/-- What reads a token need not be known to. -/
theorem mayEat (h : Lockstep P n eats S S' p q R) : Lockstep P n false S S' p q R :=
  h.conseq (Nat.le_refl n) (by simp) (fun _ _ h => h) (fun _ _ h => h) fun _ _ h => h

/-- One parser after another, the second on what the first has left of the tokens. -/
theorem seq (hp : Lockstep P n eats S S' p q R)
    (hf : ∀ a b, R a b → Lockstep P m eats' S' S'' (f a) (f' b) Q)
    (hm : ∀ k, (eats = true → 0 < k) → n - k ≤ m) :
    Lockstep P n (eats || eats') S S'' (p >>= f) (q >>= f') Q := by
  intro c d hn hS hindex
  refine (hp hn hS hindex).seq fun a b next next' _ hab hS' hmoved => ?_
  obtain ⟨k, hc, -, -, hpos⟩ := hmoved.read
  have hk := hm k hpos
  exact hf a b hab (by omega) hS' hmoved.index

/-- The second parser decides whether a token is read. -/
theorem bind (hp : Lockstep P n eats' S S' p q R)
    (hf : ∀ a b, R a b → Lockstep P n eats S' S'' (f a) (f' b) Q) :
    Lockstep P n eats S S'' (p >>= f) (q >>= f') Q :=
  (hp.seq hf fun k _ => Nat.sub_le n k).conseq (Nat.le_refl n) (by simp +contextual)
    (fun _ _ h => h) (fun _ _ h => h) fun _ _ h => h

/-- The first parser reads a token. -/
theorem andThen (hp : Lockstep P n true S S' p q R)
    (hf : ∀ a b, R a b → Lockstep P n e S' S'' (f a) (f' b) Q) :
    Lockstep P n true S S'' (p >>= f) (q >>= f') Q :=
  hp.seq hf fun k _ => Nat.sub_le n k

/-- The first parser reads a token, so that there are fewer for the second. -/
theorem step (hp : Lockstep P (n + 1) true S S' p q R)
    (hf : ∀ a b, R a b → Lockstep P n e S' S'' (f a) (f' b) Q) :
    Lockstep P (n + 1) true S S'' (p >>= f) (q >>= f') Q := by
  refine hp.seq hf fun k hk => ?_
  have := hk rfl
  omega

theorem orElse (hp : Lockstep P n eats S S' p q R) (hp' : Lockstep P n eats S S' p' q' R) :
    Lockstep P n eats S S' (p <|> p') (q <|> q') R := by
  intro c d hn hS hindex
  exact (hp hn hS hindex).orElse fun _ => hp' hn hS hindex

theorem fail {S T : Linkage} : Lockstep P n e S T (Parser.fail : Parser α) Parser.fail R := by
  intro c d _ _ _
  refine ⟨?_, Nat.zero_le _, Or.inl ⟨rfl, rfl⟩⟩
  change max 0 P.shift = 0 + P.shift
  omega

/-! ### Tokens -/

/-- What is left starts with no token that `pick` accepts. -/
def Refuses (pick : Token → Option α) (xs : List Lexeme) : Prop :=
  ∀ x ∈ xs.head?, pick x.token = none

theorem satisfy_of_refuses {pick : Token → Option α} (h : Refuses pick c.rest) :
    satisfy pick c = ⟨c.index, none⟩ := by
  unfold satisfy
  split
  · rfl
  · rename_i heq
    rw [h _ (by rw [heq]; rfl)]

theorem satisfy_of_accepts {pick : Token → Option α} {c : Cursor} {x : Lexeme} {xs : List Lexeme}
    {a : α} (hrest : c.rest = x :: xs) (hpick : pick x.token = some a) :
    satisfy pick c = ⟨0, some (a, ⟨xs, c.index + 1, x.span.stop⟩)⟩ := by
  unfold satisfy
  rw [hrest]
  simp only [hpick]

/-- A token is read by both, or by neither. -/
theorem satisfy {pick : Token → Option α}
    (h : ∀ xs ys, S xs ys → Refuses pick xs ∧ Refuses pick ys ∨
      ∃ x xs' y ys' a b, xs = x :: xs' ∧ ys = y :: ys' ∧ P.Alike x y ∧
        pick x.token = some a ∧ pick y.token = some b ∧ R a b ∧ S' xs' ys') :
    Lockstep P n true S S' (Parser.satisfy pick) (Parser.satisfy pick) R := by
  intro c d _ hS hindex
  rcases h _ _ hS with ⟨hxs, hys⟩ | ⟨x, xs, y, ys, a, b, hxs, hys, halike, hx, hy, hab, hS'⟩
  · rw [satisfy_of_refuses hxs, satisfy_of_refuses hys]
    exact ⟨by simp only; omega, Nat.le_add_right _ _, Or.inl ⟨rfl, rfl⟩⟩
  · rw [satisfy_of_accepts hxs hx, satisfy_of_accepts hys hy]
    refine ⟨by simp only; omega, Nat.zero_le _, Or.inr ⟨a, b, _, _, rfl, rfl, hab, hS', ?_⟩⟩
    refine ⟨⟨1, by simp [hxs], by simp [hys], rfl, by simp⟩, by simp only; omega, Or.inr ?_⟩
    have hspan := halike.span
    simp only [Cursor.here, hxs, hys]
    exact hspan

/-! ### Places -/

theorem node {g : Recast → α → β} {p q : Parser (Span → α)}
    (h : Lockstep P n true S S' p q (P.Builds g)) :
    Lockstep P n true S S' (node p) (node q) (P.Same g) :=
  fun _ _ hn hS hindex => (h hn hS hindex).node

theorem spanOf {p q : Parser Unit} {R : Unit → Unit → Prop} (h : Lockstep P n true S S' p q R) :
    Lockstep P n true S S' (spanOf p) (spanOf q) (P.Same fun m => Span.respan m.offset) :=
  node (h.andThen fun _ _ _ => pure fun _ _ hs => hs)

theorem ahead (h : Lockstep P n eats S S' p q R) :
    Lockstep P n false S S (ahead p) (ahead q) R := by
  intro c d hn hS hindex
  obtain ⟨hfar, hbound, hresult⟩ := h hn hS hindex
  rw [ahead_eq, ahead_eq]
  refine ⟨hfar, hbound, ?_⟩
  rcases hresult with ⟨hx, hy⟩ | ⟨a, b, next, next', hx, hy, hab, -, -⟩
  · simp [hx, hy]
  · simp only [hx, hy]
    exact Or.inr ⟨a, b, c, d, rfl, rfl, hab, hS, .refl hindex⟩

/-! ### Repetition -/

variable {g : Recast → α → β} {sep sep' : Parser Unit}

variable (h : Lockstep P n true S S p q (P.Same g))

include h

/-- Each turn reads a token, so neither run is stopped by its bound. -/
theorem manyWithin (xs ys : List Lexeme)
    (hxs : c.rest.length ≤ xs.length) (hys : d.rest.length ≤ ys.length) (hn : c.rest.length < n)
    (hS : S c.rest d.rest) (hindex : d.index = c.index + P.shift) :
    (manyWithin p xs c).Matches P false S (P.Same fun m => List.map (g m)) c d
      (manyWithin q ys d) := by
  induction hlen : c.rest.length using Nat.strongRecOn generalizing xs ys c d with
  | ind len ih =>
  obtain ⟨hfar, hbound, ⟨hx, hy⟩ | ⟨a, b, next, next', hx, hy, hab, hS', hmoved⟩⟩ := h hn hS hindex
  · rw [manyWithin_of_none hx, manyWithin_of_none hy]
    exact ⟨hfar, hbound, Or.inr ⟨[], [], c, d, rfl, rfl, rfl, hS, .refl hindex⟩⟩
  · obtain ⟨k, hc, hd, hi, hpos⟩ := hmoved.read
    have hk := hpos rfl
    obtain ⟨x, xs, rfl⟩ := List.exists_cons_of_length_pos (l := xs) (by omega)
    obtain ⟨y, ys, rfl⟩ := List.exists_cons_of_length_pos (l := ys) (by omega)
    simp only [List.length_cons] at hxs hys
    obtain ⟨hfar', hbound', hresult'⟩ := ih next.rest.length (by omega) xs ys (by omega) (by omega)
      (by omega) hS' hmoved.index rfl
    rw [manyWithin_of_some hx, manyWithin_of_some hy]
    refine ⟨by simp only; omega, by simp only; omega, ?_⟩
    rcases hresult' with ⟨hx', hy'⟩ | ⟨as, bs, last, last', hx', hy', habs, hS'', hmoved'⟩
    · simp [hx', hy']
    · simp only [hx', hy']
      refine Or.inr ⟨a :: as, b :: bs, last, last', rfl, rfl, ?_, hS'',
        (hmoved.trans hmoved').imp (by simp)⟩
      simp [hab, habs]

theorem many :
    Lockstep P n false S S (many p) (many q) (P.Same fun m => List.map (g m)) :=
  fun _ _ hn hS hindex => h.manyWithin _ _ (Nat.le_refl _) (Nat.le_refl _) hn hS hindex

theorem many1 :
    Lockstep P n true S S (many1 p) (many1 q) (P.Same fun m => List.map (g m)) :=
  h.andThen fun _ _ ha => h.many.bind fun _ _ has => pure (by simp [ha, has])

omit h in
theorem opt (h : Lockstep P n eats S S p q (P.Same g)) :
    Lockstep P n false S S (opt p) (opt q) (P.Same fun m => Option.map (g m)) :=
  (h.bind fun _ _ ha => pure (by simp [ha])).orElse (pure rfl)

theorem sepBy1 {R : Unit → Unit → Prop}
    (hsep : Lockstep P n true S S sep sep' R) :
    Lockstep P n true S S (sepBy1 p sep) (sepBy1 q sep') (P.Same fun m => List.map (g m)) :=
  h.andThen fun _ _ ha => (many (hsep.andThen fun _ _ _ => h)).bind fun _ _ has =>
    pure (by simp [ha, has])

theorem sepEndBy1
    (hsep : Lockstep P n true S S sep sep' Eq) :
    Lockstep P n true S S (sepEndBy1 p sep) (sepEndBy1 q sep') (P.Same fun m => List.map (g m)) :=
  (h.sepBy1 hsep).andThen fun _ _ has => (opt (g := fun _ => id) hsep).bind fun _ _ _ => pure has

theorem sepEndBy
    (hsep : Lockstep P n true S S sep sep' Eq) :
    Lockstep P n false S S (sepEndBy p sep) (sepEndBy q sep') (P.Same fun m => List.map (g m)) :=
  (h.sepEndBy1 hsep).mayEat.orElse (pure rfl)

/-! ### Values without spans -/

omit h

theorem manyPlain (h : Lockstep P n true S S p q Eq) :
    Lockstep P n false S S (Parser.many p) (Parser.many q) Eq :=
  (many (g := fun _ => id) h).imp (by simp)

theorem many1Plain (h : Lockstep P n true S S p q Eq) :
    Lockstep P n true S S (Parser.many1 p) (Parser.many1 q) Eq :=
  (many1 (g := fun _ => id) h).imp (by simp)

theorem optPlain (h : Lockstep P n eats S S p q Eq) :
    Lockstep P n false S S (Parser.opt p) (Parser.opt q) Eq :=
  (opt (g := fun _ => id) h).imp (by simp)

theorem sepBy1Plain (h : Lockstep P n true S S p q Eq) (hsep : Lockstep P n true S S sep sep' Eq) :
    Lockstep P n true S S (Parser.sepBy1 p sep) (Parser.sepBy1 q sep') Eq :=
  (sepBy1 (g := fun _ => id) h hsep).imp (by simp)

end Lockstep

/-! ### One run that follows another -/

/-- The second parser does what the first does where the first succeeds. -/
def Shadows (P : Pairing) (n : Nat) (S S' : Linkage) (p q : Parser α) (R : α → α → Prop) : Prop :=
  ∀ ⦃c d⦄, c.rest.length < n → S c.rest d.rest → d.index = c.index + P.shift →
    (p c).result ≠ none → (p c).Matches P true S' R c d (q d)

namespace Shadows

variable {P : Pairing} {n : Nat} {S S' S'' : Linkage} {p q p' q' : Parser α} {f f' : α → Parser β}
  {R : α → α → Prop} {Q : β → β → Prop}

theorem bind (hp : Shadows P n S S' p q R)
    (hf : ∀ a b, R a b → Lockstep P n e S' S'' (f a) (f' b) Q) :
    Shadows P n S S'' (p >>= f) (q >>= f') Q := by
  intro c d hn hS hindex hsome
  have hp_some : (p c).result ≠ none := fun hnone => hsome (by rw [bind_of_none hnone])
  refine Reply.Matches.seq (e := e) (hp hn hS hindex hp_some)
    fun a b next next' _ hab hS' hmoved => ?_
  obtain ⟨k, hc, -, -, -⟩ := hmoved.read
  exact hf a b hab (by omega) hS' hmoved.index

theorem node {g : Recast → α → β} {p q : Parser (Span → α)}
    (h : Shadows P n S S' p q (P.Builds g)) : Shadows P n S S' (node p) (node q) (P.Same g) := by
  intro c d hn hS hindex hsome
  refine (h hn hS hindex fun hnone => hsome ?_).node
  rw [node_eq, hnone]
  rfl

/-- The last alternative is the one that the first run need not succeed with. -/
theorem orElse (hp : Lockstep P n true S S' p q R) (hp' : Shadows P n S S' p' q' R) :
    Shadows P n S S' (p <|> p') (q <|> q') R := by
  intro c d hn hS hindex hsome
  refine (hp hn hS hindex).orElse fun hnone => hp' hn hS hindex fun hnone' => hsome ?_
  rw [orElse_of_none hnone, hnone']

variable {g : Recast → α → β} {γ : Type} {k k' : List α → Parser γ} {Q : γ → γ → Prop}

/-- Repetition may take the first run to its end, where what comes after it fails. -/
theorem manyWithin_bind (hp : Lockstep P n true S S' p q (P.Same g)) {E : List Lexeme → Prop}
    (hS' : ∀ xs ys, S' xs ys → S xs ys ∨ E xs)
    (hk : ∀ as bs, as.map (g P.left) = bs.map (g P.right) →
      Lockstep P n true S S'' (k as) (k' bs) Q) (hpE : ∀ c : Cursor, E c.rest → (p c).result = none)
    (hkE : ∀ (c : Cursor) as, E c.rest → (k as c).result = none) (xs ys : List Lexeme)
    (hxs : c.rest.length ≤ xs.length) (hys : d.rest.length ≤ ys.length) (hn : c.rest.length < n)
    (hS : S c.rest d.rest) (hindex : d.index = c.index + P.shift)
    (hsome : ((Parser.manyWithin p xs >>= k) c).result ≠ none) :
    ((Parser.manyWithin p xs >>= k) c).Matches P true S'' Q c d
      ((Parser.manyWithin q ys >>= k') d) := by
  induction hlen : c.rest.length using Nat.strongRecOn generalizing xs ys c d k k' with
  | ind len ih =>
  have hread := hp hn hS hindex
  obtain ⟨hfar, hbound, ⟨hx, hy⟩ | ⟨a, b, next, next', hx, hy, -, -, hmoved⟩⟩ := hread
  · obtain ⟨hfar', hbound', hresult'⟩ := hk [] [] rfl hn hS hindex
    rw [manyWithin_bind_of_none hx, manyWithin_bind_of_none hy]
    exact ⟨by simp only; omega, by simp only; omega, hresult'⟩
  · obtain ⟨j, hc, hd, -, hpos⟩ := hmoved.read
    have hj := hpos rfl
    obtain ⟨x, xs, rfl⟩ := List.exists_cons_of_length_pos (l := xs) (by omega)
    obtain ⟨y, ys, rfl⟩ := List.exists_cons_of_length_pos (l := ys) (by omega)
    simp only [List.length_cons] at hxs hys
    rw [manyWithin_bind_of_some hx, manyWithin_bind_of_some hy]
    rw [manyWithin_bind_of_some hx, bind_of_some hx] at hsome
    refine (hp hn hS hindex).seq (e := true) fun a' b' last last' hx' hab hlast hmoved => ?_
    obtain ⟨rfl, rfl⟩ : a = a' ∧ next = last := by simpa [hx] using hx'
    rcases hS' _ _ hlast with hlast | hend
    · obtain ⟨i, -, hd', -, hpos'⟩ := hmoved.read
      have hi := hpos' rfl
      refine ih next.rest.length (by omega) (fun as bs habs => hk (a :: as) (b' :: bs) ?_)
        (fun c as => hkE c (a :: as)) xs ys (by omega) (by omega) (by omega) hlast hmoved.index
        hsome rfl
      simp [hab, habs]
    · refine absurd ?_ hsome
      rw [manyWithin_bind_of_none (hpE next hend), hkE next [a] hend]

end Shadows

end Parser

/-! ### Within a line -/

theorem optionRel_refl {α : Type} (a : Option α) : Option.Rel Eq a a := by
  cases a with
  | none => exact .none
  | some a => exact .some rfl

/-- The tokens agree as far as the next mark of the layout. -/
structure Linkage.Inline (P : Pairing) (T : Linkage) : Prop where
  next : ∀ xs ys, T xs ys → xs = [] ∧ ys = [] ∨ ∃ x xs' y ys', xs = x :: xs' ∧ ys = y :: ys' ∧
    P.Alike x y ∧ (x.token.isMark = false → T xs' ys')

namespace Linkage.Inline

open Scrutiny.Parser (Lockstep)

variable {α : Type} {P : Pairing} {T : Linkage} {n : Nat} {eats : Bool}

variable (hT : T.Inline P)

include hT

/-- A token that is no mark is read by both if it is picked alike. -/
theorem pick {pick : Token → Option α} {R : α → α → Prop}
    (hmark : ∀ token, token.isMark = true → pick token = none)
    (hpick : ∀ x y, P.Alike x y → Option.Rel R (pick x.token) (pick y.token)) :
    Lockstep P n true T T (Parser.satisfy pick) (Parser.satisfy pick) R := by
  refine .satisfy fun xs ys hxs => ?_
  rcases hT.next xs ys hxs with ⟨rfl, rfl⟩ | ⟨x, xs, y, ys, rfl, rfl, halike, hnext⟩
  · exact Or.inl ⟨nofun, nofun⟩
  have hrel := hpick x y halike
  generalize hx : pick x.token = a, hy : pick y.token = b at hrel
  cases hrel with
  | none =>
    exact Or.inl ⟨by simpa [Lockstep.Refuses] using hx, by simpa [Lockstep.Refuses] using hy⟩
  | some hab =>
    refine Or.inr ⟨x, xs, y, ys, _, _, rfl, rfl, halike, hx, hy, hab, hnext ?_⟩
    by_contra hplain
    simp [hmark _ (eq_true_of_ne_false hplain)] at hx

theorem satisfy {pick : Token → Option α}
    (hmark : ∀ token, token.isMark = true → pick token = none)
    (hname : ∀ text, pick (.name text) = none) :
    Lockstep P n true T T (Parser.satisfy pick) (Parser.satisfy pick) Eq := by
  refine hT.pick hmark fun x y halike => ?_
  rcases Token.eq_of_rename halike.token with ⟨a, b, hx, hy, -⟩ | ⟨heq, -⟩
  · rw [hx, hy, hname, hname]
    exact .none
  · rw [heq]
    exact optionRel_refl _

omit hT in
theorem token (hT : T.Inline P) {t : Token} (ht : t.isMark = false)
    (hname : ∀ text, t ≠ .name text) :
    Lockstep P n true T T (Parser.token t) (Parser.token t) Eq := by
  refine hT.satisfy (fun other hother => if_neg ?_) fun text => if_neg (hname text).symm
  rintro rfl
  simp [ht] at hother

theorem keyword {k : Keyword} :
    Lockstep P n true T T (Parser.keyword k) (Parser.keyword k) Eq := hT.token rfl nofun

theorem symbol {s : Symbol} :
    Lockstep P n true T T (Parser.symbol s) (Parser.symbol s) Eq := hT.token rfl nofun

theorem word (hP : P.Literal) {text : String} :
    Lockstep P n true T T (Parser.word text) (Parser.word text) Eq := by
  unfold Parser.word Parser.token
  refine hT.pick (fun token htoken => ?_) fun x y halike => ?_
  · refine if_neg ?_
    rintro rfl
    simp [Token.isMark] at htoken
  · rw [hP.token_eq halike]
    exact optionRel_refl _

theorem name :
    Lockstep P n true T T Parser.name Parser.name (P.Same Recast.ident) := by
  refine hT.pick (fun token htoken => ?_) fun x y halike => ?_
  · cases token with
    | name text => simp [Token.isMark] at htoken
    | _ => rfl
  · rcases Token.eq_of_rename halike.token with ⟨a, b, hx, hy, hab⟩ | ⟨heq, hname⟩
    · rw [hx, hy]
      exact .some hab
    · rw [← heq]
      cases htoken : x.token with
      | name text => exact absurd htoken (hname text)
      | _ => exact .none

/-- The opening bracket is a token fewer for what is inside. -/
theorem bracketed {b : Bracket} {p q : Parser α} {R : α → α → Prop}
    (h : Lockstep P n eats T T p q R) :
    Lockstep P (n + 1) true T T (Parser.bracketed b p) (Parser.bracketed b q) R :=
  .step hT.symbol fun _ _ _ => h.bind fun _ _ ha => hT.symbol.bind fun _ _ _ => .pure ha

end Linkage.Inline

end Scrutiny
