/-
Success that carries over to other names.

No rule for expressions looks at what a name is, so a stream and the same stream under other
names are read in lockstep (`Parser.Renames`).  Under other names a statement may turn into one
of another kind, so rules for statements do not read both streams alike.  What holds is one
direction: `Carries f s K R p q` says that where `p` succeeds on the rest of `s`, `q` does the
same on the renamed tokens, provided `K` holds at the place where it stops.

The proviso is there for what is optional.  Where `p` leaves an optional part unread, `q` must
find none either, and that can be told from what comes next.  For this there are three
judgements about one stream: a parser stops where `K` holds (`Stops`), it leads from a place
with `K'` to a place with `K` (`Leads`), and it succeeds only where another one fails
(`Excludes`).  The last is what an ordered choice needs, whose earlier alternatives fail on
the names there are.
-/
import Scrutiny.Proofs.Grammar.Rejection
import Scrutiny.Proofs.Grammar.Tally

namespace Scrutiny

variable {γ : Type} {eats : Bool}

/-- A place in a stream with other names. -/
def Cursor.rename (f : String → String) (c : Cursor) : Cursor :=
  { c with rest := c.rest.map (Lexeme.rename f) }

@[simp] theorem Cursor.here_rename (f : String → String) (c : Cursor) :
    (c.rename f).here = c.here := by
  obtain ⟨rest, index, edge⟩ := c
  cases rest with
  | nil => rfl
  | cons lexeme rest => rfl

/-- A stream compared with itself under other names. -/
def Pairing.renamed (f : String → String) : Pairing := ⟨.rename f, .same, 0⟩

/-- What is left of a stream, and the same under other names. -/
def Renamed (f : String → String) (s : List Lexeme) : Linkage := fun xs ys =>
  xs <:+ s ∧ ys = xs.map (Lexeme.rename f)

theorem Renamed.inline (f : String → String) (s : List Lexeme) :
    (Renamed f s).Inline (.renamed f) := by
  refine ⟨fun xs ys ⟨hxs, hys⟩ => ?_⟩
  subst hys
  cases xs with
  | nil => exact Or.inl ⟨rfl, rfl⟩
  | cons x xs =>
    refine Or.inr ⟨x, xs, x.rename f, _, rfl, rfl, ⟨(Token.rename_id _).symm, rfl⟩, fun _ => ?_⟩
    exact ⟨(List.suffix_cons x xs).trans hxs, rfl⟩

/-- Two places that were moved to from one are one. -/
theorem Pairing.Moved.eq_rename {f : String → String} {c next next' : Cursor}
    (h : (Pairing.renamed f).Moved eats c (c.rename f) next next')
    (hrest : next'.rest = next.rest.map (Lexeme.rename f)) : next' = next.rename f := by
  rcases h.span with ⟨rfl, rfl⟩ | hspan
  · rfl
  · have hedge : next.edge = next'.edge := congrArg Span.stop hspan
    obtain ⟨rest, index, edge⟩ := next'
    obtain ⟨rfl, rfl⟩ : next.index = index ∧ next.edge = edge := ⟨h.index.symm, hedge⟩
    exact congrArg (Cursor.mk · _ _) hrest

/-- Any place. -/
abbrev Cursor.Anywhere (_ : Cursor) : Prop := True

/-- Nothing is left to read. -/
abbrev Cursor.AtEnd (c : Cursor) : Prop := c.rest = []

namespace Parser

variable {α β : Type} {f : String → String} {s : List Lexeme}

/-- A place from where a parser succeeds, up to a place with `K`, has `K'`. -/
def Leads (K K' : Cursor → Prop) (p : Parser α) : Prop :=
  ∀ ⦃c a next⦄, (p c).result = some (a, next) → K next → K' c

/-- A parser fails at the places with `K`. -/
def Stops (K : Cursor → Prop) (p : Parser α) : Prop :=
  ∀ ⦃c⦄, K c → (p c).result = none

/-- On at most `n` tokens, where `p` succeeds up to a place with `K`, there `q` fails. -/
def Excludes (n : Nat) (K : Cursor → Prop) (p : Parser α) (q : Parser β) : Prop :=
  ∀ ⦃c a next⦄, c.rest.length ≤ n → (p c).result = some (a, next) → K next → (q c).result = none

/-- On the rest of `s`, `q` does with other names what `p` does with those there are. -/
abbrev Renames (f : String → String) (s : List Lexeme) (eats : Bool) (p q : Parser α)
    (R : α → α → Prop) : Prop :=
  Lockstep (.renamed f) (s.length + 1) eats (Renamed f s) (Renamed f s) p q R

/-- On the rest of `s`, where `p` succeeds so does `q` on other names, if `K` holds behind it. -/
def Carries (f : String → String) (s : List Lexeme) (K : Cursor → Prop) (R : α → α → Prop)
    (p q : Parser α) : Prop :=
  ∀ ⦃c a next⦄, c.rest <:+ s → (p c).result = some (a, next) → next.rest <:+ s ∧
    ∃ b, R a b ∧ (K (next.rename f) → (q (c.rename f)).result = some (b, next.rename f))

section

variable {p q p' q' : Parser α} {k k' : α → Parser β} {R : α → α → Prop} {Q : β → β → Prop}
  {K K₀ K₁ K' : Cursor → Prop} {kind : Token → Bool}

theorem Rejects.stops (hp : Rejects kind p) : Stops (·.Faces kind) p := by
  intro c hc
  rw [hp hc]

/-! ### Where parsers lead from -/

namespace Leads

theorem anywhere : Leads K Cursor.Anywhere p := fun _ _ _ _ _ => trivial

theorem pure {a : α} : Leads K K (pure a) := by
  intro c b next hresult hnext
  rwa [(pure_result.mp hresult).2] at hnext

theorem imp (hp : Leads K₀ K₁ p) (hK : ∀ c, K c → K₀ c) (hK' : ∀ c, K₁ c → K' c) : Leads K K' p :=
  fun _ _ _ hresult hnext => hK' _ (hp hresult (hK _ hnext))

theorem bind (hp : Leads K₁ K' p) (hk : ∀ a, Leads K K₁ (k a)) : Leads K K' (p >>= k) := by
  intro c b next hresult hnext
  obtain ⟨a, mid, hfirst, hsecond⟩ := bind_result.mp hresult
  exact hp hfirst (hk a hsecond hnext)

/-- The first part tells enough. -/
theorem head (hp : Leads Cursor.Anywhere K' p) : Leads K K' (p >>= k) :=
  bind hp fun _ => anywhere

theorem orElse (hp : Leads K K' p) (hq : Leads K K' q) : Leads K K' (p <|> q) := by
  intro c a next hresult hnext
  rcases orElse_result.mp hresult with hresult | ⟨-, hresult⟩
  · exact hp hresult hnext
  · exact hq hresult hnext

theorem token {t : Token} (ht : kind t = true) : Leads K (·.Faces kind) (token t) := by
  intro c a next hresult _
  obtain ⟨x, hx, hadv⟩ := satisfy_result hresult
  by_cases heq : x.token = t
  · simpa [Cursor.Faces, hadv.rest, heq] using ht
  · simp [heq] at hx

/-- What fails in front of some tokens leads from others. -/
theorem of_stops (hp : Stops (·.Faces kind) p) : Leads K (·.Faces fun t => !kind t) p := by
  intro c a next hresult _ x hx
  by_contra hkind
  have hfaces : c.Faces kind := by
    intro y hy
    obtain rfl := Option.mem_unique hx hy
    simpa using hkind
  rw [hp hfaces] at hresult
  simp at hresult

theorem manyWithin (hp : Leads K₀ K₀ p) (hK : ∀ c, K c → K₀ c) (bound : List Lexeme) :
    Leads K K₀ (manyWithin p bound) := by
  intro c as next hresult
  refine manyWithin_induct (M := fun _ c _ next => K next → K₀ c) ?stop ?last ?step hresult
  case stop => exact fun _ c _ hnext => hK c hnext
  case last => exact fun _ _ _ hfirst hnext => hp hfirst (hK _ hnext)
  case step => exact fun _ _ _ _ _ _ _ hfirst _ ih hnext => hp hfirst (ih hnext)

/-- Along a repetition the condition is handed from each item to the one before it. -/
theorem many (hp : Leads K₀ K₀ p) (hK : ∀ c, K c → K₀ c) : Leads K K₀ (many p) :=
  fun c _ _ hresult hnext => manyWithin hp hK c.rest hresult hnext

theorem opt (hp : Leads K K' p) (hK : ∀ c, K c → K' c) : Leads K K' (opt p) :=
  orElse (bind hp fun _ => pure) (pure.imp (fun _ => id) hK)

end Leads

/-! ### Alternatives that exclude each other -/

namespace Excludes

variable {n : Nat} {r : Parser β} {r' : Parser β}

/-- What starts differently is not read at one place. -/
theorem of_leads (hr : Leads Cursor.Anywhere (·.Faces kind) r) (hp : Rejects kind p) :
    Excludes n K p r := by
  intro c a next _ hresult _
  by_contra hother
  obtain ⟨⟨b, last⟩, hother⟩ := Option.ne_none_iff_exists'.mp hother
  rw [hp (hr hother trivial)] at hresult
  simp at hresult

theorem bind {k : β → Parser γ} (hr : Excludes n K p r) : Excludes n K p (r >>= k) := by
  intro c a next hn hresult hnext
  rw [bind_of_none (hr hn hresult hnext)]

theorem orElse (hr : Excludes n K p r) (hr' : Excludes n K p r') : Excludes n K p (r <|> r') := by
  intro c a next hn hresult hnext
  rw [orElse_of_none (hr hn hresult hnext)]
  exact hr' hn hresult hnext

theorem node {r : Parser (Span → β)} (hr : Excludes n K p r) : Excludes n K p (node r) := by
  intro c a next hn hresult hnext
  rw [node_eq, hr hn hresult hnext]
  rfl

/-- Two alternatives exclude what each of them does. -/
theorem either (hp : Excludes n K p r) (hp' : Excludes n K p' r) : Excludes n K (p <|> p') r := by
  intro c a next hn hresult hnext
  rcases orElse_result.mp hresult with hresult | ⟨-, hresult⟩
  · exact hp hn hresult hnext
  · exact hp' hn hresult hnext

/-- Behind a beginning that both have, what comes next decides. -/
theorem behind {k : γ → Parser α} {l : γ → Parser β} {o : Parser γ}
    (h : ∀ b m, Excludes m K (k b) (l b)) : Excludes n K (o >>= k) (o >>= l) := by
  intro c a next _ hresult hnext
  obtain ⟨b, mid, hfirst, hsecond⟩ := bind_result.mp hresult
  rw [bind_of_some hfirst]
  exact h b _ le_rfl hsecond hnext

/-- A beginning may be missing, and it is where the other starts. -/
theorem skip {k : γ → Parser α} {o : Parser γ}
    (hr : Leads Cursor.Anywhere (·.Faces kind) r) (ho : Skips kind o)
    (hk : ∀ b, Excludes n K (k b) r) : Excludes n K (o >>= k) r := by
  intro c a next hn hresult hnext
  by_contra hother
  obtain ⟨⟨_, last⟩, hother'⟩ := Option.ne_none_iff_exists'.mp hother
  obtain ⟨b, hskip⟩ := ho (hr hother' trivial)
  obtain ⟨b', mid, hfirst, hsecond⟩ := bind_result.mp hresult
  rw [hskip] at hfirst
  cases hfirst
  exact hother (hk b hn hsecond hnext)

end Excludes

/-! ### Carrying over -/

/-- A token that is no name is read under other names as well, a mark included. -/
theorem Renames.token {t : Token} (ht : ∀ text, t ≠ .name text) :
    Renames f s true (token t) (token t) Eq := by
  refine .satisfy fun xs ys hxs => ?_
  rcases (Renamed.inline f s).next xs ys hxs with ⟨rfl, rfl⟩ | ⟨x, xs, y, ys, rfl, rfl, halike, -⟩
  · exact Or.inl ⟨nofun, nofun⟩
  have hsame := halike.token_eq_iff ht
  by_cases hx : x.token = t
  · refine Or.inr ⟨x, xs, y, ys, (), (), rfl, rfl, halike, if_pos hx, if_pos (hsame.mp hx), rfl, ?_⟩
    exact ⟨(List.suffix_cons x xs).trans hxs.1, (List.cons.inj hxs.2).2⟩
  · exact Or.inl
      ⟨by simpa [Lockstep.Refuses] using hx, by simpa [Lockstep.Refuses, ← hsame] using hx⟩

theorem Renames.eof : Renames f s false eof eof Eq := by
  intro c d _ ⟨hc, hd⟩ hindex
  obtain ⟨rest, index, edge⟩ := c
  obtain ⟨rest', index', edge'⟩ := d
  obtain ⟨rfl, rfl⟩ : rest' = rest.map (Lexeme.rename f) ∧ index' = index := ⟨hd, hindex⟩
  cases rest with
  | nil => exact ⟨rfl, Nat.zero_le _, Or.inr ⟨(), (), _, _, rfl, rfl, rfl, ⟨hc, rfl⟩, .refl rfl⟩⟩
  | cons x xs => exact ⟨Nat.max_zero index', Nat.le_add_right _ _, Or.inl ⟨rfl, rfl⟩⟩

/-- What one run gives, or gives up, the other does. -/
theorem Lockstep.renamed (hp : Renames f s eats p q R) {c : Cursor}
    (hc : c.rest <:+ s) : (p c).result = none ∧ (q (c.rename f)).result = none ∨
      ∃ a b next, (p c).result = some (a, next) ∧ next.rest <:+ s ∧ R a b ∧
        (q (c.rename f)).result = some (b, next.rename f) := by
  have hlength : c.rest.length < s.length + 1 := Nat.lt_succ_of_le hc.length_le
  have hmatches := hp hlength (d := c.rename f) ⟨hc, rfl⟩ rfl
  rcases hmatches.result with hnone | ⟨a, b, next, next', hx, hy, hab, ⟨hnext, hrest⟩, hmoved⟩
  · exact Or.inl hnone
  · obtain rfl := hmoved.eq_rename hrest
    exact Or.inr ⟨a, b, next, hx, hnext, hab, hy⟩

namespace Carries

theorem of_renames (hp : Renames f s eats p q R) : Carries f s K R p q := by
  intro c a next hc hresult
  rcases hp.renamed hc with ⟨hnone, -⟩ | ⟨a, b, next, hx, hnext, hab, hy⟩
  · simp [hnone] at hresult
  · rw [hresult] at hx
    cases hx
    exact ⟨hnext, b, hab, fun _ => hy⟩

/-- What never succeeds has nothing to carry over. -/
theorem never (hp : ∀ c : Cursor, c.rest <:+ s → (p c).result = none) : Carries f s K R p q := by
  intro c a next hc hresult
  rw [hp c hc] at hresult
  simp at hresult

theorem imp (hp : Carries f s K₀ R p q) (hK : ∀ c, K c → K₀ c) : Carries f s K R p q := by
  intro c a next hc hresult
  obtain ⟨hnext, b, hab, hq⟩ := hp hc hresult
  exact ⟨hnext, b, hab, fun hK₀ => hq (hK _ hK₀)⟩

/-- The second run of what comes after tells what the first part needs. -/
theorem bind (hp : Carries f s K₁ R p q) (hk : ∀ a b, R a b → Carries f s K Q (k a) (k' b))
    (hlead : ∀ b, Leads K K₁ (k' b)) : Carries f s K Q (p >>= k) (q >>= k') := by
  intro c a' next hc hresult
  obtain ⟨a, mid, hfirst, hsecond⟩ := bind_result.mp hresult
  obtain ⟨hmid, b, hab, hq⟩ := hp hc hfirst
  obtain ⟨hlast, b', hab', hq'⟩ := hk a b hab hmid hsecond
  refine ⟨hlast, b', hab', fun hnext => ?_⟩
  have hafter := hq' hnext
  exact bind_result.mpr ⟨b, mid.rename f, hq (hlead b hafter hnext), hafter⟩

/-- The first part carries over whatever comes next. -/
theorem andThen (hp : Carries f s Cursor.Anywhere R p q)
    (hk : ∀ a b, R a b → Carries f s K Q (k a) (k' b)) : Carries f s K Q (p >>= k) (q >>= k') :=
  bind hp hk fun _ => .anywhere

theorem read (hp : Renames f s eats p q R)
    (hk : ∀ a b, R a b → Carries f s K Q (k a) (k' b)) : Carries f s K Q (p >>= k) (q >>= k') :=
  andThen (of_renames hp) hk

theorem pure {a b : α} (hab : R a b) : Carries f s K R (pure a) (pure b) :=
  of_renames (.pure hab)

/-- An alternative carries over if what comes before it fails where it succeeds. -/
theorem orElse (hp : Carries f s K R p q) (hp' : Carries f s K R p' q')
    (hexcludes : Excludes s.length K q' q) : Carries f s K R (p <|> p') (q <|> q') := by
  intro c a next hc hresult
  rcases orElse_result.mp hresult with hresult | ⟨-, hresult⟩
  · obtain ⟨hlast, b, hab, hq⟩ := hp hc hresult
    exact ⟨hlast, b, hab, fun hnext => orElse_result.mpr (.inl (hq hnext))⟩
  · obtain ⟨hlast, b, hab, hq⟩ := hp' hc hresult
    refine ⟨hlast, b, hab, fun hnext => orElse_result.mpr (.inr ⟨?_, hq hnext⟩)⟩
    have hlength : (c.rename f).rest.length ≤ s.length := by
      simpa [Cursor.rename] using hc.length_le
    exact hexcludes hlength (hq hnext) hnext

/-- An alternative that reads both streams alike. -/
theorem orElseRead (hp : Renames f s eats p q R) (hp' : Carries f s K R p' q') :
    Carries f s K R (p <|> p') (q <|> q') := by
  intro c a next hc hresult
  rcases orElse_result.mp hresult with hresult | ⟨hnone, hresult⟩
  · obtain ⟨hlast, b, hab, hq⟩ := of_renames hp hc hresult
    exact ⟨hlast, b, hab, fun hnext => orElse_result.mpr (.inl (hq hnext))⟩
  · obtain ⟨hlast, b, hab, hq⟩ := hp' hc hresult
    refine ⟨hlast, b, hab, fun hnext => orElse_result.mpr (.inr ⟨?_, hq hnext⟩)⟩
    rcases hp.renamed hc with ⟨-, hnone'⟩ | ⟨_, _, _, hx, -⟩
    · exact hnone'
    · simp [hnone] at hx

variable {g : Recast → α → β}

theorem node {p q : Parser (Span → α)} (hp : Carries f s K ((Pairing.renamed f).Builds g) p q) :
    Carries f s K ((Pairing.renamed f).Same g) (node p) (node q) := by
  intro c a next hc hresult
  obtain ⟨build, hbuild, rfl⟩ := node_result.mp hresult
  obtain ⟨hlast, build', hab, hq⟩ := hp hc hbuild
  refine ⟨hlast, build' ⟨c.here, next.edge⟩, hab _ _ rfl, fun hnext => ?_⟩
  refine node_result.mpr ⟨build', hq hnext, ?_⟩
  rw [Cursor.here_rename]
  rfl

/-- An optional part that is left out is left out again. -/
theorem opt (hp : Carries f s K ((Pairing.renamed f).Same g) p q) (hstop : Stops K q) :
    Carries f s K ((Pairing.renamed f).Same fun m => Option.map (g m)) (opt p) (opt q) := by
  refine orElse (bind hp (fun _ _ hab => pure (by simp [hab])) fun _ => .pure) (pure rfl) ?_
  intro c a next _ hresult hnext
  obtain ⟨-, rfl⟩ := pure_result.mp hresult
  rw [bind_of_none (hstop hnext)]

theorem manyWithin (hp : Carries f s K₀ ((Pairing.renamed f).Same g) p q) (hlead : Leads K₀ K₀ q)
    (hstop : Stops K q) (hK : ∀ c, K c → K₀ c) (bound : List Lexeme) :
    Carries f s K ((Pairing.renamed f).Same fun m => List.map (g m))
      (manyWithin p bound) (manyWithin q (bound.map (Lexeme.rename f))) := by
  intro c as next hc hresult
  refine manyWithin_induct (M := fun bound c as next => c.rest <:+ s → next.rest <:+ s ∧
    ∃ bs, (Pairing.renamed f).Same (fun m => List.map (g m)) as bs ∧ (K (next.rename f) →
      (Parser.manyWithin q (bound.map (Lexeme.rename f)) (c.rename f)).result
        = some (bs, next.rename f))) ?stop ?last ?step hresult hc
  case stop =>
    intro bound c _ hc
    refine ⟨hc, [], rfl, fun hnext => ?_⟩
    rw [manyWithin_of_none (hstop hnext)]
  case last =>
    intro c a next hfirst hc
    obtain ⟨hlast, b, hab, hq⟩ := hp hc hfirst
    refine ⟨hlast, [b], by simp [hab], fun hnext => ?_⟩
    rw [List.map_nil, manyWithin_last (hq (hK _ hnext))]
  case step =>
    intro x bound c a mid as next hfirst _ ih hc
    obtain ⟨hmid, b, hab, hq⟩ := hp hc hfirst
    obtain ⟨hlast, bs, habs, hqs⟩ := ih hmid
    refine ⟨hlast, b :: bs, by simp [hab, habs], fun hnext => ?_⟩
    -- That the rest of the items is read again tells that this one is.
    have hmore := hqs hnext
    have hmidK : K₀ (mid.rename f) := hlead.manyWithin hK _ hmore hnext
    rw [List.map_cons, manyWithin_of_some (hq hmidK), hmore]
    rfl

theorem many (hp : Carries f s K₀ ((Pairing.renamed f).Same g) p q) (hlead : Leads K₀ K₀ q)
    (hstop : Stops K q) (hK : ∀ c, K c → K₀ c) :
    Carries f s K ((Pairing.renamed f).Same fun m => List.map (g m)) (many p) (many q) :=
  fun c _ _ hc hresult => manyWithin hp hlead hstop hK c.rest hc hresult

theorem many1 (hp : Carries f s K₀ ((Pairing.renamed f).Same g) p q) (hlead : Leads K₀ K₀ q)
    (hstop : Stops K q) (hK : ∀ c, K c → K₀ c) :
    Carries f s K ((Pairing.renamed f).Same fun m => List.map (g m)) (many1 p) (many1 q) :=
  bind hp (fun _ _ hab => bind (many hp hlead hstop hK) (fun _ _ habs => pure (by simp [hab, habs]))
    fun _ => .pure) fun _ => .bind (.many hlead hK) fun _ => .pure

end Carries

end

end Parser

end Scrutiny
