/-
Where parsers put their nodes.

The tokens of a text stand in it one after another (`Site`), so a parser that reads
them moves forward from one offset to a later one (`Site.Moves`).  `Places t lo p G`
says that from `lo` on `p` moves to some offset `hi` and that `G hi` holds of its
result.

Most rules put a node around everything they have read, and then the order of the
parts does not matter.  For these there is `Gathers`: with the nodes `ns` read since
`base`, over at least `k` bytes, `p` goes on to an offset where `G base` holds.  At the
end of a rule it is left to say that the children of the new node are among `ns`.
Where the order does matter, the parts of a repetition are kept in a row (`Row`).
-/
import Scrutiny.Proofs.Grammar.Tally
import Scrutiny.Proofs.Syntax.Nodes
import Scrutiny.Proofs.Token.Lossless

namespace Scrutiny

variable {c : Cursor} {lo : Nat} {t : Site}

/-- A token stream and the text that its tokens stand in. -/
structure Site where
  chars : List Char
  stream : List Lexeme
  inside : ∀ lexeme ∈ stream, lexeme.span.start ≤ lexeme.span.stop ∧
    lexeme.span.stop ≤ byteLength chars
  ordered : stream.Pairwise fun a b => a.span.stop ≤ b.span.start
  /-- What is no mark of the layout is written where its span says. -/
  written : ∀ lexeme ∈ stream, lexeme.token.isMark = false →
    lexeme.span.start < lexeme.span.stop ∧
      sliceBytes? chars lexeme.span = some lexeme.token.text.toList

/-! ### The site of a token stream -/

theorem lexemesFrom_nonempty {ps : List Piece} (hps : ∀ p ∈ ps, p.chars ≠ []) (offset : Nat) :
    ∀ lexeme ∈ lexemesFrom offset ps, lexeme.span.start < lexeme.span.stop := by
  induction ps generalizing offset with
  | nil => simp [lexemesFrom]
  | cons p ps ih =>
    intro lexeme hlexeme
    have hpos := byteLength_pos (hps p (by simp))
    have hlater := ih (fun q hq => hps q (by simp [hq])) (offset + byteLength p.chars) lexeme
    unfold lexemesFrom at hlexeme
    cases hkind : p.kind with
    | token token =>
      simp only [hkind, List.mem_cons] at hlexeme
      rcases hlexeme with rfl | hlexeme
      · exact Nat.lt_add_of_pos_right hpos
      · exact hlater hlexeme
    | gap => exact hlater (by simpa [hkind] using hlexeme)
    | fault => exact hlater (by simpa [hkind] using hlexeme)

/-- The tokens of a text, where they stand in it. -/
def Site.ofTokens {source : String} {stream : TokenStream} (h : tokenize source = .ok stream) :
    Site where
  chars := source.toList
  stream := stream.tokens
  inside := tokenize_inside h
  ordered := tokenize_ordered h
  written lexeme hlexeme hplain :=
    have ⟨hmem, hslice⟩ := tokenize_scanned h hlexeme hplain
    ⟨lexemesFrom_nonempty (pieces_nonempty _) 0 lexeme hmem, hslice⟩

/-! ### Moving forward -/

/-- From the offset `lo`, at the cursor `c`, a parser has moved to `hi`, at `next`. -/
structure Site.Moves (t : Site) (lo hi : Nat) (c next : Cursor) : Prop where
  suffix : next.rest <:+ c.rest
  le : lo ≤ hi
  here : hi ≤ next.here
  /-- Nothing was read, or the last token read stops at `hi`. -/
  edge : next = c ∧ hi = lo ∨ hi = next.edge ∧ hi ≤ byteLength t.chars

theorem Site.Moves.refl (h : lo ≤ c.here) : t.Moves lo lo c c :=
  ⟨List.suffix_refl _, Nat.le_refl _, h, Or.inl ⟨rfl, rfl⟩⟩

theorem Site.Moves.trans {mid hi : Nat} {between next : Cursor}
    (h₁ : t.Moves lo mid c between) (h₂ : t.Moves mid hi between next) : t.Moves lo hi c next := by
  refine ⟨h₂.suffix.trans h₁.suffix, Nat.le_trans h₁.le h₂.le, h₂.here, ?_⟩
  rcases h₂.edge with ⟨rfl, rfl⟩ | hedge
  · exact h₁.edge
  · exact Or.inr hedge

/-- Reading a token moves to its end. -/
theorem Site.Moves.one {next : Cursor} {lexeme : Lexeme}
    (hc : c.rest <:+ t.stream) (hlo : lo ≤ c.here) (h : c.Advances [lexeme] next) :
    lo ≤ lexeme.span.start ∧ t.Moves lo lexeme.span.stop c next := by
  have hrest : c.rest = lexeme :: next.rest := h.rest
  have hedge : next.edge = lexeme.span.stop := h.edge
  have hmem : lexeme ∈ t.stream := hc.mem (by simp [hrest])
  obtain ⟨hle, hsize⟩ := t.inside lexeme hmem
  have hstart : lo ≤ lexeme.span.start := by
    unfold Cursor.here at hlo
    rwa [hrest] at hlo
  refine ⟨hstart, h.suffix, by omega, ?_, Or.inr ⟨hedge.symm, hsize⟩⟩
  have hordered := t.ordered.sublist hc.sublist
  rw [hrest] at hordered
  unfold Cursor.here
  split
  · rename_i other rest hnext
    exact (List.pairwise_cons.mp hordered).1 other (by simp [hnext])
  · exact Nat.le_of_eq hedge.symm

/-- Items one after another, each between two offsets of its own. -/
inductive Row {α : Type} (P : Nat → Nat → α → Prop) : Nat → Nat → List α → Prop
  | nil {lo : Nat} : Row P lo lo []
  | cons {lo mid hi : Nat} {a : α} {as : List α} (hle : lo ≤ mid) (ha : P lo mid a)
      (has : Row P mid hi as) : Row P lo hi (a :: as)

theorem Row.le {α : Type} {P : Nat → Nat → α → Prop} {hi : Nat} {as : List α}
    (h : Row P lo hi as) : lo ≤ hi := by
  induction h with
  | nil => exact Nat.le_refl _
  | cons hle _ _ ih => exact Nat.le_trans hle ih

/-- A row with something in it has a last item. -/
theorem Row.last {α : Type} {P : Nat → Nat → α → Prop} {lo hi : Nat} {as : List α} {a : α}
    (h : Row P lo hi (as ++ [a])) : ∃ mid, Row P lo mid as ∧ P mid hi a := by
  induction as generalizing lo with
  | nil =>
    cases h with
    | cons hle ha has =>
      cases has
      exact ⟨lo, .nil, ha⟩
  | cons b as ih =>
    cases h with
    | cons hle hb has =>
      obtain ⟨mid, hrow, ha⟩ := ih has
      exact ⟨mid, .cons hle hb hrow, ha⟩

namespace Parser

variable {α β : Type} {t : Site} {lo : Nat}

/-- From `lo` on a parser moves forward, to an offset at which `G` holds of its result. -/
def Places (t : Site) (lo : Nat) (p : Parser α) (G : Nat → α → Prop) : Prop :=
  ∀ ⦃c a next⦄, c.rest <:+ t.stream → lo ≤ c.here → (p c).result = some (a, next) →
    ∃ hi, t.Moves lo hi c next ∧ G hi a

namespace Places

variable {p q : Parser α} {f : α → Parser β} {G H : Nat → α → Prop} {I : Nat → β → Prop}

theorem pure {a : α} (h : G lo a) : Places t lo (pure a) G := by
  intro c b next _ hlo hresult
  obtain ⟨rfl, rfl⟩ := pure_result.mp hresult
  exact ⟨lo, .refl hlo, h⟩

theorem bind (hp : Places t lo p G) (hf : ∀ a mid, lo ≤ mid → G mid a → Places t mid (f a) I) :
    Places t lo (p >>= f) I := by
  intro c b next hc hlo hresult
  obtain ⟨a, between, hfirst, hsecond⟩ := bind_result.mp hresult
  obtain ⟨mid, hmoves₁, ha⟩ := hp hc hlo hfirst
  obtain ⟨hi, hmoves₂, hb⟩ :=
    hf a mid hmoves₁.le ha (hmoves₁.suffix.trans hc) hmoves₁.here hsecond
  exact ⟨hi, hmoves₁.trans hmoves₂, hb⟩

theorem imp (hp : Places t lo p G) (h : ∀ hi a, lo ≤ hi → G hi a → H hi a) : Places t lo p H := by
  intro c a next hc hlo hresult
  obtain ⟨hi, hmoves, ha⟩ := hp hc hlo hresult
  exact ⟨hi, hmoves, h hi a hmoves.le ha⟩

theorem orElse (hp : Places t lo p G) (hq : Places t lo q G) : Places t lo (p <|> q) G := by
  intro c a next hc hlo hresult
  rcases orElse_result.mp hresult with hresult | ⟨-, hresult⟩
  · exact hp hc hlo hresult
  · exact hq hc hlo hresult

theorem fail : Places t lo Parser.fail G := by
  intro c a next _ _ hresult
  simp [Parser.fail] at hresult

/-- A node gets the span over which its parts were read. -/
theorem node {p : Parser (Span → α)} (hp : ∀ here, lo ≤ here → Places t here p fun hi build =>
      here < hi ∧ (hi ≤ byteLength t.chars → G hi (build ⟨here, hi⟩))) :
    Places t lo (node p) G := by
  intro c a next hc hlo hresult
  obtain ⟨build, hbuild, rfl⟩ := node_result.mp hresult
  obtain ⟨hi, hmoves, hlt, hG⟩ := hp c.here hlo hc (Nat.le_refl _) hbuild
  rcases hmoves.edge with ⟨-, hnone⟩ | ⟨hedge, hsize⟩
  · omega
  · refine ⟨hi, ⟨hmoves.suffix, by omega, hmoves.here, Or.inr ⟨hedge, hsize⟩⟩, ?_⟩
    rw [← hedge]
    exact hG hsize

theorem ahead : Places t lo (ahead p) fun hi _ => hi = lo := by
  intro c a next _ hlo hresult
  obtain rfl := eq_of_ahead_result hresult
  exact ⟨lo, .refl hlo, rfl⟩

theorem eof : Places t lo eof fun hi _ => hi = lo := by
  intro c a next _ hlo hresult
  obtain ⟨-, rfl⟩ := eof_result.mp hresult
  exact ⟨lo, .refl hlo, rfl⟩

theorem satisfy {pick : Token → Option α}
    (h : ∀ lexeme ∈ t.stream, ∀ a, pick lexeme.token = some a → lo ≤ lexeme.span.start →
      G lexeme.span.stop a) : Places t lo (satisfy pick) G := by
  intro c a next hc hlo hresult
  obtain ⟨lexeme, hlexeme, hadv⟩ := satisfy_result hresult
  obtain ⟨hstart, hmoves⟩ := Site.Moves.one hc hlo hadv
  exact ⟨_, hmoves, h lexeme (hc.mem (by simp [hadv.rest])) a hlexeme hstart⟩

/-- A node that is one token has the span of the token. -/
theorem single {pick : Token → Option α} {build : α → Span → β}
    (h : ∀ lexeme ∈ t.stream, ∀ a, pick lexeme.token = some a → lo ≤ lexeme.span.start →
      I lexeme.span.stop (build a lexeme.span)) :
    Places t lo (Parser.node (do let a ← Parser.satisfy pick; return build a)) I := by
  intro c b next hc hlo hresult
  obtain ⟨_, hbuild, rfl⟩ := node_result.mp hresult
  obtain ⟨a, between, hread, hpure⟩ := bind_result.mp hbuild
  obtain ⟨rfl, rfl⟩ := pure_result.mp hpure
  obtain ⟨lexeme, hlexeme, hadv⟩ := satisfy_result hread
  obtain ⟨hstart, hmoves⟩ := Site.Moves.one hc hlo hadv
  refine ⟨_, hmoves, ?_⟩
  have hspan : (⟨c.here, next.edge⟩ : Span) = lexeme.span := by
    have hhere : c.here = lexeme.span.start := by simp [Cursor.here, hadv.rest]
    rw [hhere, show next.edge = lexeme.span.stop from hadv.edge]
  rw [hspan]
  exact h lexeme (hc.mem (by simp [hadv.rest])) a hlexeme hstart

/-- A repetition gives a row. -/
theorem manyWithin {P : Nat → Nat → α → Prop} (hp : ∀ lo, Places t lo p (P lo))
    (bound : List Lexeme) : Places t lo (manyWithin p bound) fun hi as => Row P lo hi as := by
  intro c as next hc hlo hresult
  revert lo
  revert hc
  refine manyWithin_induct (M := fun _ c as next => c.rest <:+ t.stream → ∀ {lo}, lo ≤ c.here →
    ∃ hi, t.Moves lo hi c next ∧ Row P lo hi as) ?_ ?_ ?_ hresult
  · intro _ c _ _ lo hlo
    exact ⟨lo, .refl hlo, .nil⟩
  · intro c a next hfirst hc lo hlo
    obtain ⟨hi, hmoves, ha⟩ := hp lo hc hlo hfirst
    exact ⟨hi, hmoves, .cons hmoves.le ha .nil⟩
  · intro _ _ c a between as next hfirst _ ih hc lo hlo
    obtain ⟨mid, hmoves₁, ha⟩ := hp lo hc hlo hfirst
    obtain ⟨hi, hmoves₂, has⟩ := ih (hmoves₁.suffix.trans hc) hmoves₁.here
    exact ⟨hi, hmoves₁.trans hmoves₂, .cons hmoves₁.le ha has⟩

theorem many {P : Nat → Nat → α → Prop} (hp : ∀ lo, Places t lo p (P lo)) :
    Places t lo (many p) fun hi as => Row P lo hi as :=
  fun c _ _ hc hlo hresult => manyWithin hp c.rest hc hlo hresult

theorem opt (hp : Places t lo p G) :
    Places t lo (opt p) fun hi found => found.elim (hi = lo) (G hi) :=
  orElse (bind hp fun _ _ _ ha => pure ha) (pure rfl)

end Places

end Parser

/-! ### Gathering nodes -/

section

variable {α β : Type} {t : Site} {k j w : Nat} {ns : List Node}

/-- At least `k` bytes from `base` on, the nodes of a result lie in between. -/
def Site.Wide (t : Site) (k : Nat) (g : α → List Node) (base hi : Nat) (a : α) : Prop :=
  base + k ≤ hi ∧ Fits t.chars base hi (g a)

/-- The nodes of what is built over the span from `base` on lie in it. -/
def Site.Built (t : Site) (g : α → List Node) (base hi : Nat) (build : Span → α) : Prop :=
  base < hi ∧ (hi ≤ byteLength t.chars → Fits t.chars base hi (g (build ⟨base, hi⟩)))

theorem Row.fits {g : α → List Node} {lo hi : Nat} {as : List α}
    (h : Row (t.Wide k g) lo hi as) : Fits t.chars lo hi (as.flatMap g) := by
  induction h with
  | nil => exact fits_nil
  | cons hle ha has ih =>
    rw [List.flatMap_cons, fits_append]
    exact ⟨ha.2.mono (Nat.le_refl _) has.le, ih.mono hle (Nat.le_refl _)⟩

namespace Parser

variable {p q : Parser α} {f : α → Parser β} {g : α → List Node} {G : Nat → Nat → β → Prop}
  {sep : Parser Unit}

/-- With the nodes `ns` read since `base`, over at least `k` bytes, a parser goes on to an
offset at which `G base` holds of its result. -/
def Gathers (t : Site) (k : Nat) (ns : List Node) (p : Parser α)
    (G : Nat → Nat → α → Prop) : Prop :=
  ∀ ⦃base lo⦄, base + k ≤ lo → Fits t.chars base lo ns → Places t lo p (G base)

/-- Over at least `k` bytes a parser reads the nodes `g` of its result. -/
def Lays (t : Site) (k : Nat) (p : Parser α) (g : α → List Node) : Prop :=
  Gathers t 0 [] p (t.Wide k g)

theorem Lays.places (h : Lays t k p g) (lo : Nat) : Places t lo p (t.Wide k g lo) :=
  h (Nat.le_refl _) fits_nil

theorem Lays.of_places (h : ∀ lo, Places t lo p (t.Wide k g lo)) : Lays t k p g := by
  intro base lo hbase _
  refine (h lo).imp fun hi a hle ha => ⟨?_, ha.2.mono hbase (Nat.le_refl _)⟩
  have := ha.1
  omega

namespace Gathers

theorem bind (hp : Lays t w p g) (hf : ∀ a, Gathers t (k + w) (ns ++ g a) (f a) G) :
    Gathers t k ns (p >>= f) G := by
  intro base lo hbase hns
  refine (hp.places lo).bind fun a mid hle ha => hf a ?_ ?_
  · have := ha.1
    omega
  · refine fits_append.mpr ⟨hns.mono (Nat.le_refl _) hle, ha.2.mono ?_ (Nat.le_refl _)⟩
    omega

/-- A first part that brings no nodes. -/
theorem skip (hp : Lays t w p fun _ => []) (hf : ∀ a, Gathers t (k + w) ns (f a) G) :
    Gathers t k ns (p >>= f) G :=
  bind hp fun a => by rw [List.append_nil]; exact hf a

theorem pure {b : β} (h : ∀ base hi, base + k ≤ hi → Fits t.chars base hi ns → G base hi b) :
    Gathers t k ns (pure b) G :=
  fun base lo hbase hns => .pure (h base lo hbase hns)

/-- A result whose nodes are among those gathered. -/
theorem wide {b : β} {h : β → List Node} (hj : j ≤ k)
    (hb : ∀ base hi, Fits t.chars base hi ns → Fits t.chars base hi (h b)) :
    Gathers t k ns (Pure.pure b) (t.Wide j h) :=
  pure fun base hi hbase hns => ⟨by omega, hb base hi hns⟩

/-- A parser whose result is the result of the whole. -/
theorem tail {h : α → List Node} (hp : Lays t w p g) (hj : j ≤ k + w)
    (hg : ∀ a base hi, Fits t.chars base hi (ns ++ g a) → Fits t.chars base hi (h a)) :
    Gathers t k ns p (t.Wide j h) := by
  intro base lo hbase hns
  refine (hp.places lo).imp fun hi a hle ha => ⟨?_, hg a base hi ?_⟩
  · have := ha.1
    omega
  · refine fits_append.mpr ⟨hns.mono (Nat.le_refl _) hle, ha.2.mono ?_ (Nat.le_refl _)⟩
    omega

/-- The same if there are no nodes before it. -/
theorem last (hp : Lays t w p g) (hj : j ≤ k + w) : Gathers t k [] p (t.Wide j g) :=
  tail hp hj fun _ _ _ hns => hns

theorem orElse {p q : Parser β} (hp : Gathers t k ns p G) (hq : Gathers t k ns q G) :
    Gathers t k ns (p <|> q) G :=
  fun _ _ hbase hns => .orElse (hp hbase hns) (hq hbase hns)

theorem fail : Gathers t k ns Parser.fail G := fun _ _ _ _ => .fail

end Gathers

namespace Lays

/-! ### Tokens -/

/-- A token that is no mark covers something. -/
theorem satisfy {pick : Token → Option α}
    (hpick : ∀ token, token.isMark = true → pick token = none) :
    Lays t 1 (satisfy pick) fun _ => [] := by
  refine of_places fun lo => .satisfy fun lexeme hlexeme a ha hstart => ⟨?_, fits_nil⟩
  have hplain : lexeme.token.isMark = false := by
    cases hmark : lexeme.token.isMark with
    | false => rfl
    | true => simp [hpick _ hmark] at ha
  have := (t.written lexeme hlexeme hplain).1
  omega

/-- A mark of the layout may cover nothing. -/
theorem token {mark : Token} : Lays t 0 (token mark) fun _ => [] := by
  refine of_places fun lo => .satisfy fun lexeme hlexeme a ha hstart => ⟨?_, fits_nil⟩
  have := (t.inside lexeme hlexeme).1
  omega

theorem solid {plain : Token} (hplain : plain.isMark = false) :
    Lays t 1 (Parser.token plain) fun _ => [] := by
  refine satisfy fun other hother => ?_
  rw [if_neg]
  rintro rfl
  rw [hplain] at hother
  simp at hother

theorem keyword {kw : Keyword} : Lays t 1 (keyword kw) fun _ => [] := solid rfl

theorem symbol {s : Symbol} : Lays t 1 (symbol s) fun _ => [] := solid rfl

theorem word {text : String} : Lays t 1 (word text) fun _ => [] := solid rfl

theorem name : Lays t 1 name fun _ => [] := by
  refine satisfy fun token htoken => ?_
  cases token with
  | name text => simp [Token.isMark] at htoken
  | _ => rfl

theorem ahead : Lays t 0 (ahead p) fun _ => [] :=
  of_places fun _ => Places.ahead.imp fun _ _ hle _ => ⟨hle, fits_nil⟩

/-! ### Composition -/

theorem node {p : Parser (Span → α)} (hp : Gathers t 0 [] p (t.Built g)) : Lays t 1 (node p) g :=
  of_places fun lo => .node fun here hle =>
    (hp (Nat.le_refl here) fits_nil).imp fun hi build _ hbuild =>
      ⟨hbuild.1,
        fun hsize => ⟨by have := hbuild.1; omega, (hbuild.2 hsize).mono hle (Nat.le_refl _)⟩⟩

variable (hp : Lays t k p g)

include hp

theorem imp {h : α → List Node} (hj : j ≤ k)
    (hg : ∀ a base hi, Fits t.chars base hi (g a) → Fits t.chars base hi (h a)) : Lays t j p h :=
  Gathers.tail hp (by omega) hg

theorem many : Lays t 0 (many p) fun as => as.flatMap g :=
  of_places fun _ => (Places.many hp.places).imp fun _ _ hle has => ⟨hle, has.fits⟩

theorem many1 : Lays t k (many1 p) fun as => as.flatMap g :=
  Gathers.bind hp fun _ => .bind (many hp) fun _ => .wide (by omega) (by simp)

theorem opt : Lays t 0 (opt p) fun found => found.toList.flatMap g :=
  Gathers.orElse (.bind hp fun _ => .wide (by omega) (by simp)) (.wide (by omega) (by simp))

omit hp in
/-- An optional part that brings no nodes. -/
theorem optSkip (hp : Lays t k p fun _ => []) : Lays t 0 (Parser.opt p) fun _ => [] :=
  (opt hp).imp (Nat.le_refl _) (by simp)

theorem sepBy1 (hsep : Lays t w sep fun _ => []) : Lays t k (sepBy1 p sep) fun as => as.flatMap g :=
  Gathers.bind hp fun _ => .bind (many (Gathers.skip hsep fun _ => .last hp (Nat.le_refl _)))
    fun _ => .wide (by omega) (by simp)

theorem sepEndBy1 (hsep : Lays t w sep fun _ => []) :
    Lays t k (sepEndBy1 p sep) fun as => as.flatMap g :=
  Gathers.bind (sepBy1 hp hsep) fun _ => .skip (optSkip hsep) fun _ => .wide (by omega) (by simp)

theorem sepEndBy (hsep : Lays t w sep fun _ => []) :
    Lays t 0 (sepEndBy p sep) fun as => as.flatMap g :=
  Gathers.orElse ((sepEndBy1 hp hsep).imp (by omega) (by simp)) (.wide (by omega) (by simp))

theorem bracketed {b : Bracket} : Lays t 1 (bracketed b p) g :=
  Gathers.skip symbol fun _ => .bind hp fun _ => .skip symbol fun _ => .wide (by omega) (by simp)

end Lays

end Parser

end

end Scrutiny
