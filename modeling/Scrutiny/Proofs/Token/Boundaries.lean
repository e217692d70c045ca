/-
Tokens and faults begin and end between characters that belong apart.

A carriage return and the newline after it are one line ending, and no piece of a text
ends between the two, unless something before it could not be read.  So every token of
a scanned text starts and stops at a place that has a line and a column
(`scan_boundaries`), and so does the first fault of any text (`scan_error_boundary`).
-/
import Scrutiny.Proofs.Text.Positions
import Scrutiny.Proofs.Token.Joining
import Scrutiny.Proofs.Token.Lossless

namespace Scrutiny

variable {cs : List Char} {n : Nat}

/-! ### Pieces -/

theorem IsIdentifier.oneLine (h : IsIdentifier cs) : '\r' ∉ cs :=
  h.not_mem (by decide) (by decide)

theorem readToken?_last {t : Token} (h : readToken? cs = some (t, n)) :
    (cs.take n).getLast? ≠ some '\r' := by
  have hfree (hmem : '\r' ∉ cs.take n) : (cs.take n).getLast? ≠ some '\r' := fun hlast =>
    hmem (List.mem_of_getLast? hlast)
  cases ReadAs.of_readToken? h with
  | lineEnd hend =>
    rcases (lineEndLength?_isLineEnd hend).2 with htake | htake
    · rw [htake]
      decide
    · rw [htake]
      decide
  | literal hquoted => exact Quoted.length?_last hquoted
  | word hword => exact hfree (wordLength?_isIdentifier hword).2.oneLine
  | numeral hnumeral =>
    exact hfree fun hmem => absurd (Numeral.length?_confines.mem_take hnumeral hmem) (by decide)
  | symbol hsymbol =>
    refine hfree ?_
    rw [← (Symbol.read?_text hsymbol).2]
    exact (Symbol.oneLine _).1

theorem Gap.last {text after : List Char} (h : Gap text after) : text.getLast? ≠ some '\r' := by
  intro hlast
  have hmem := List.mem_of_getLast? hlast
  cases h with
  | spacing _ hrun => exact absurd (hrun _ hmem) (by decide)
  | comment hbody _ =>
    rcases List.mem_cons.mp hmem with heq | hmem
    · exact absurd heq (by decide)
    · exact (hbody _ hmem).1 rfl
  | joint hending =>
    rcases hending with rfl | rfl
    · exact absurd hlast (by decide)
    · exact absurd hlast (by decide)
  | orderMark => exact absurd hlast (by decide)

theorem gapLength?_last (h : gapLength? cs = some n) : (cs.take n).getLast? ≠ some '\r' := by
  obtain ⟨-, hgap | ⟨body, htake, hbody, -⟩⟩ := gapLength?_cases h
  · exact hgap.last
  · rw [htake]
    exact (Gap.comment hbody (Or.inl rfl)).last

/-- A piece that could be read does not end with a carriage return. -/
theorem pieces_last (cs : List Char) :
    ∀ p ∈ pieces cs, p.kind ≠ .fault → p.chars.getLast? ≠ some '\r' := by
  rintro ⟨kind, chars⟩ hp hkind
  obtain ⟨ahead, n, hread, rfl⟩ := readPiece_of_mem_pieces hp hkind
  cases kind with
  | fault => exact absurd rfl hkind
  | gap => exact gapLength?_last (gapLength?_of_readPiece hread)
  | token t => exact readToken?_last (readToken?_of_readPiece hread)

/-- Where one readable piece ends and the next piece begins. -/
theorem boundary_of_pieces {front back : List Piece} (h : pieces cs = front ++ back)
    (hclean : ∀ p ∈ front, p.kind ≠ .fault) :
    Boundary cs (byteLength (front.flatMap Piece.chars)) := by
  refine Or.inr ⟨front.flatMap Piece.chars, back.flatMap Piece.chars, ?_, rfl, ?_⟩
  · rw [← List.flatMap_append, ← h, pieces_chars]
  · induction front using List.reverseRecOn with
    | nil => simp
    | append_singleton front p _ =>
      have hp : p ∈ pieces cs := by
        rw [h]
        simp
      obtain ⟨c, hc⟩ := Option.ne_none_iff_exists'.mp
        (mt List.getLast?_eq_none_iff.mp (pieces_nonempty cs p hp))
      have hlast := pieces_last cs p hp (hclean p (by simp))
      rw [List.flatMap_append, List.flatMap_singleton, List.getLast?_append, hc,
        Option.some_or, ← hc]
      exact hlast

/-! ### Tokens and faults -/

/-- Everything before the first fault could be read. -/
theorem faultsFrom_cons {ps : List Piece} {offset : Nat} {chars : List Char} {span : Span}
    {more : List (List Char × Span)} (h : faultsFrom offset ps = (chars, span) :: more) :
    ∃ front back, ps = front ++ back ∧ (∀ p ∈ front, p.kind ≠ .fault) ∧
      span.start = offset + byteLength (front.flatMap Piece.chars) := by
  induction ps generalizing offset with
  | nil => simp [faultsFrom] at h
  | cons p ps ih =>
    have hlater : p.kind ≠ .fault →
        faultsFrom (offset + byteLength p.chars) ps = (chars, span) :: more →
        ∃ front back, p :: ps = front ++ back ∧ (∀ p ∈ front, p.kind ≠ .fault) ∧
          span.start = offset + byteLength (front.flatMap Piece.chars) := by
      intro hkind hlater
      obtain ⟨front, back, rfl, hclean, hstart⟩ := ih hlater
      refine ⟨p :: front, back, rfl, List.forall_mem_cons.mpr ⟨hkind, hclean⟩, ?_⟩
      rw [hstart, List.flatMap_cons, byteLength_append, Nat.add_assoc]
    obtain ⟨kind, text⟩ := p
    unfold faultsFrom at h
    cases kind with
    | fault =>
      cases h
      exact ⟨[], _, rfl, by simp, rfl⟩
    | gap => exact hlater (by simp) h
    | token t => exact hlater (by simp) h

/-- A span that starts and stops at boundaries. -/
def Span.OnBoundaries (cs : List Char) (span : Span) : Prop :=
  Boundary cs span.start ∧ Boundary cs span.stop

/-- The first fault of a text starts at a boundary. -/
theorem scan_error_boundary {errors : TokenErrors} (h : scan cs = .error errors) :
    Boundary cs errors.first.span.start := by
  unfold scan at h
  simp only at h
  split at h
  · rename_i first more hfaults
    cases h
    obtain ⟨⟨chars, span⟩, rest, hcut, rfl, -⟩ := List.map_eq_cons_iff.mp hfaults
    obtain ⟨front, back, hpieces, hclean, hstart⟩ := faultsFrom_cons hcut
    simp only [hstart, Nat.zero_add]
    exact boundary_of_pieces hpieces hclean
  · simp at h

/-- The tokens of a scanned text start and stop at boundaries. -/
theorem scan_onBoundaries {lexemes : List Lexeme} (h : scan cs = .ok lexemes) :
    ∀ lexeme ∈ lexemes, lexeme.span.OnBoundaries cs := by
  intro lexeme hmem
  obtain ⟨hfaults, rfl⟩ := scan_pieces h
  obtain ⟨front, chars, back, hpieces, hspan⟩ := mem_lexemesFrom hmem
  have hclean := faultsFrom_eq_nil hfaults
  rw [hspan, Nat.zero_add, Nat.zero_add]
  refine ⟨boundary_of_pieces hpieces fun p hp => hclean p (by simp [hpieces, hp]), ?_⟩
  have hpieces' : pieces cs = (front ++ [⟨.token lexeme.token, chars⟩]) ++ back := by simp [hpieces]
  have hstop := boundary_of_pieces hpieces' fun p hp => hclean p (by
    rw [hpieces']
    exact List.mem_append_left back hp)
  rwa [List.flatMap_append, List.flatMap_singleton] at hstop

/-! ### Layout -/

namespace Layout

variable {table : LineTable}

/-- A bracket is opened by a token. -/
theorem Step.brackets {state next : State} {lexeme : Lexeme} {more : List Lexeme}
    {ended : List LogicalLine} (h : Step cs table state lexeme next more ended) :
    ∀ b ∈ next.brackets, b ∈ state.brackets ∨ b.2 = lexeme.span := by
  have hmatched {brackets : List (Bracket × Span)}
      (hb : matchBrackets state.brackets lexeme = .ok brackets) :
      ∀ b ∈ brackets, b ∈ state.brackets ∨ b.2 = lexeme.span := by
    intro b hmem
    rcases matchBrackets_cases hb with ⟨_, _, rfl⟩ | ⟨_, _, _, heq⟩ | ⟨_, rfl⟩
    · rcases List.mem_cons.mp hmem with rfl | hmem
      · exact Or.inr rfl
      · exact Or.inl hmem
    · rw [heq]
      exact Or.inl (List.mem_cons_of_mem _ hmem)
    · exact Or.inl hmem
  cases h with
  | blank hnewline hline => exact fun b hb => Or.inl hb
  | inner hnewline hopen => exact fun b hb => Or.inl hb
  | ending hnewline hline hclosed => exact fun b hb => Or.inl hb
  | first hother hline hindent hbrackets => exact hmatched hbrackets
  | further hother hline hbrackets => exact hmatched hbrackets

/-- The layout fails at a token or at a bracket that is still open. -/
theorem run_error_span {P : Span → Prop} {lexemes : List Lexeme} {state : State}
    {error : TokenError} (h : run cs table state lexemes = .error error)
    (hlexemes : ∀ lexeme ∈ lexemes, P lexeme.span) (hbrackets : ∀ b ∈ state.brackets, P b.2) :
    P error.span := by
  induction lexemes generalizing state with
  | nil =>
    simp only [run, finish] at h
    split at h
    · rename_i b span rest hopen
      cases h
      exact hbrackets (b, span) (by simp [hopen])
    · split at h
      · simp at h
      · simp at h
  | cons lexeme rest ih =>
    obtain ⟨hlexeme, hrest⟩ := List.forall_mem_cons.mp hlexemes
    rcases step_or_stuck cs table state lexeme with ⟨next, more, ended, hstep⟩ | ⟨fault, hstuck⟩
    · rw [run_of_step hstep] at h
      cases hrun : run cs table next rest with
      | ok stream => simp [hrun, Except.map] at h
      | error error' =>
        obtain rfl : error' = error := by simpa [hrun, Except.map] using h
        refine ih hrun hrest fun b hb => ?_
        rcases hstep.brackets b hb with hb | hb
        · exact hbrackets b hb
        · rw [hb]
          exact hlexeme
    · rw [run_of_stuck hstuck] at h
      cases h
      exact hlexeme

end Layout

/-- **A text without a token stream is reported at a boundary.** -/
theorem tokenize_error_boundary {source : String} {errors : TokenErrors}
    (h : tokenize source = .error errors) : Boundary source.toList errors.first.span.start := by
  unfold tokenize at h
  simp only at h
  split at h
  · rename_i hscan
    cases h
    exact scan_error_boundary hscan
  · rename_i lexemes hscan
    split at h
    · rename_i error hrun
      cases h
      exact (Layout.run_error_span hrun (scan_onBoundaries hscan)
        (by simp [Layout.State.initial])).1
    · simp at h

/-- **The tokens of a stream start and stop at boundaries.** -/
theorem tokenize_onBoundaries {source : String} {stream : TokenStream}
    (h : tokenize source = .ok stream) :
    ∀ lexeme ∈ stream.tokens, lexeme.span.OnBoundaries source.toList := by
  obtain ⟨lexemes, last, out, lines, rest, hscan, hsteps, hfinish, rfl⟩ := tokenize_steps h
  have hread := scan_onBoundaries hscan
  intro lexeme hlexeme
  rcases List.mem_append.mp hlexeme with hlexeme | hlexeme
  · rcases hsteps.origin lexeme hlexeme with hmem | ⟨-, other, hother, hspan⟩
    · exact hread lexeme hmem
    · rw [hspan]
      exact ⟨(hread other hother).1, (hread other hother).1⟩
  · rw [Layout.finish_point hfinish lexeme hlexeme]
    exact ⟨Or.inl (Nat.le_refl _), Or.inl (Nat.le_refl _)⟩

end Scrutiny
