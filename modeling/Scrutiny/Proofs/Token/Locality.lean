/-
Reading does not look past the end of a line.

Whatever stands at the front of a text that ends with a newline is read the same way
with more text behind it, except for string literals, which may go on.  So a text cut
at a newline token is scanned as its two halves are (`pieces_append`): had a literal
of the first half gone on into the second, there would be no such token.
-/
import Scrutiny.Proofs.Text.Halves
import Scrutiny.Proofs.Token.Scanning

namespace Scrutiny

variable {a b : List Char}

variable {s : List Char} (after : List Char)

/-! ### Line ends, gaps and symbols -/

theorem lineEndLength?_append (hs : EndsLine s) :
    lineEndLength? (s ++ after) = lineEndLength? s := by
  match s with
  | [] => exact absurd rfl hs.ne_nil
  | '\n' :: rest => rfl
  | [c] =>
    obtain rfl : c = '\n' := by simpa [EndsLine] using hs
    rfl
  | c :: d :: rest =>
    unfold lineEndLength?
    simp only [List.cons_append]
    split <;> simp_all

theorem gapLength?_append (hs : EndsLine s) : gapLength? (s ++ after) = gapLength? s := by
  cases s with
  | nil => exact absurd rfl hs.ne_nil
  | cons c rest =>
    by_cases hc : c = '\n'
    · subst hc
      rfl
    · have hrest := hs.tail hc
      simp only [List.cons_append, gapLength?, runLength]
      rw [takeWhile_append_of_newline (by decide) hrest.mem,
        takeWhile_append_of_newline (by decide) hrest.mem, lineEndLength?_append after hrest]

theorem Symbol.read?_append (hs : EndsLine s) : read? (s ++ after) = read? s := by
  have hnone {cs : List Char} (hcs : '\n' ∈ cs) : ofChars? cs = none := by
    cases hread : ofChars? cs with
    | none => rfl
    | some found =>
      rw [← ofChars?_text hread] at hcs
      exact absurd hcs found.oneLine.2
  have htake (n : Nat) : ofChars? ((s ++ after).take n) = ofChars? (s.take n) := by
    by_cases hn : n ≤ s.length
    · rw [List.take_append_of_le_length hn]
    · have hmem : '\n' ∈ s.take n := by
        rw [List.take_of_length_le (by omega)]
        exact hs.mem
      rw [hnone hmem, hnone]
      rw [List.take_append]
      exact List.mem_append_left _ hmem
  simp only [read?, htake]

/-! ### Whole lines -/

/-- Whole lines: nothing, or a text that ends with a newline. -/
def WholeLines (cs : List Char) : Prop := cs = [] ∨ EndsLine cs

theorem WholeLines.drop (h : WholeLines s) (n : Nat) : WholeLines (s.drop n) := by
  by_cases hn : n < s.length
  · refine h.imp (fun hnil => ?_) (fun hends => hends.drop hn)
    rw [hnil, List.drop_nil]
  · exact Or.inl (List.drop_eq_nil_of_le (Nat.le_of_not_lt hn))

theorem WholeLines.tail {c : Char} (h : WholeLines (c :: s)) : WholeLines s := h.drop 1

theorem WholeLines.ne_singleton {c : Char} (h : WholeLines (c :: s)) (hc : c ≠ '\n') : s ≠ [] := by
  rintro rfl
  rcases h with h | h
  · simp at h
  · simp [EndsLine, hc] at h

/-! ### Pieces -/

/-- What is read in the lines is read with any other text behind them, if string literals are. -/
theorem readToken?_congr (other : List Char) (hs : EndsLine s)
    (hquoted : (∀ n ∈ Quoted.length? (s ++ after), n ≤ s.length) →
      Quoted.length? (s ++ other) = Quoted.length? (s ++ after))
    (hfits : ∀ found ∈ readToken? (s ++ after), found.2 ≤ s.length) :
    readToken? (s ++ other) = readToken? (s ++ after) := by
  unfold readToken? at hfits ⊢
  rw [lineEndLength?_append after hs, wordLength?_confines.append (by decide) hs.mem after,
    Numeral.length?_confines.append (by decide) hs.mem after,
    Symbol.read?_append after hs] at hfits ⊢
  rw [lineEndLength?_append other hs, wordLength?_confines.append (by decide) hs.mem other,
    Numeral.length?_confines.append (by decide) hs.mem other, Symbol.read?_append other hs]
  cases hend : lineEndLength? s with
  | some n => simp
  | none =>
    rw [hend] at hfits
    have hsame : Quoted.length? (s ++ other) = Quoted.length? (s ++ after) := by
      refine hquoted fun n hn => ?_
      exact hfits (.string (String.ofList ((s ++ after).take n)), n)
        (by simp [Option.mem_def.mp hn])
    rw [hsame]
    -- Each reading fits, so it takes the same characters.
    cases hlength : Quoted.length? (s ++ after) with
    | some n =>
      have hle := hfits (.string (String.ofList ((s ++ after).take n)), n) (by simp [hlength])
      simp [List.take_append_of_le_length hle]
    | none =>
      cases hword : wordLength? s with
      | some n =>
        have hle := hfits (.ofWord ((s ++ after).take n), n) (by simp [hlength, hword])
        simp [List.take_append_of_le_length hle]
      | none =>
        cases hnumeral : Numeral.length? s with
        | some n =>
          have hle := hfits (.number (String.ofList ((s ++ after).take n)), n)
            (by simp [hlength, hword, hnumeral])
          simp [List.take_append_of_le_length hle]
        | none => simp

theorem readPiece_congr (other : List Char) (hs : EndsLine s)
    (hquoted : (∀ n ∈ Quoted.length? (s ++ after), n ≤ s.length) →
      Quoted.length? (s ++ other) = Quoted.length? (s ++ after))
    (hfits : (readPiece (s ++ after)).1 ≠ .fault → (readPiece (s ++ after)).2 ≤ s.length) :
    (readPiece (s ++ other)).1 = (readPiece (s ++ after)).1 ∧ ((readPiece (s ++ after)).1 ≠ .fault →
        (readPiece (s ++ other)).2 = (readPiece (s ++ after)).2) := by
  unfold readPiece at hfits ⊢
  rw [gapLength?_append after hs] at hfits ⊢
  rw [gapLength?_append other hs]
  cases hgap : gapLength? s with
  | some n => simp
  | none =>
    rw [hgap] at hfits
    have htoken : readToken? (s ++ other) = readToken? (s ++ after) := by
      refine readToken?_congr after other hs hquoted fun found hfound => ?_
      rw [Option.mem_def.mp hfound] at hfits
      exact hfits (by simp)
    rw [htoken]
    cases readToken? (s ++ after) with
    | some found => simp
    | none => simp

/-- What can be read in the line is read, and what cannot be read stays so. -/
theorem readPiece_append (hs : EndsLine s)
    (hfits : (readPiece (s ++ after)).1 ≠ .fault → (readPiece (s ++ after)).2 ≤ s.length) :
    (readPiece (s ++ after)).1 = (readPiece s).1 ∧
      ((readPiece s).1 ≠ .fault → (readPiece (s ++ after)).2 = (readPiece s).2) := by
  obtain ⟨hkind, hlength⟩ := readPiece_congr after [] hs (fun hfits => by
    rw [List.append_nil, Quoted.length?_append after hfits]) hfits
  rw [List.append_nil] at hkind hlength
  rw [hkind]
  exact ⟨rfl, fun hclean => (hlength hclean).symm⟩

theorem pieces_cons (c : Char) (rest : List Char) :
    pieces (c :: rest)
      = ⟨(readPiece (c :: rest)).1, c :: rest.take ((readPiece (c :: rest)).2 - 1)⟩ ::
        pieces (rest.drop ((readPiece (c :: rest)).2 - 1)) := by
  rw [pieces]

/-- **A text that a line's end cuts between two pieces is scanned as its halves are**,
if the first half can be scanned at all. -/
theorem pieces_append (hs : WholeLines s) (hclean : ∀ p ∈ pieces s, p.kind ≠ .fault)
    {front back : List Piece} (hcut : pieces (s ++ after) = front ++ back)
    (hfront : front.flatMap Piece.chars = s) : pieces s = front ∧ pieces after = back := by
  by_cases hafter : after = []
  · have hback : back = [] := by
      have hchars := pieces_chars (s ++ after)
      rw [hcut, List.flatMap_append, hfront, List.append_cancel_left_eq, hafter] at hchars
      by_contra hne
      obtain ⟨p, back, rfl⟩ := List.exists_cons_of_ne_nil hne
      have hp : p ∈ pieces (s ++ after) := by simp [hcut]
      exact pieces_nonempty _ p hp (List.append_eq_nil_iff.mp hchars).1
    rw [hafter, List.append_nil, hback, List.append_nil] at hcut
    exact ⟨hcut, by simp [hafter, hback, pieces]⟩
  induction front generalizing s with
  | nil =>
    subst hfront
    exact ⟨by simp [pieces], hcut⟩
  | cons p front ih =>
    cases s with
    | nil =>
      refine absurd (List.append_eq_nil_iff.mp hfront).1 ?_
      exact pieces_nonempty _ p (by rw [hcut]; simp)
    | cons c rest =>
      have hends : EndsLine (c :: rest) := hs.resolve_left (List.cons_ne_nil c rest)
      rw [List.cons_append, pieces_cons, List.cons_append, List.cons.injEq] at hcut
      obtain ⟨rfl, hlater⟩ := hcut
      -- The first piece fits, so it is the first piece of the half.
      have hlength := congrArg List.length hfront
      have hsome := List.length_pos_of_ne_nil hafter
      simp only [List.flatMap_cons, List.length_append, List.length_cons,
        List.length_take] at hlength
      have hread := readPiece_append after hends fun _ => by
        rw [List.cons_append, List.length_cons]
        omega
      rw [List.cons_append] at hread
      obtain ⟨hsame, htakes⟩ := hread
      rw [pieces_cons, List.forall_mem_cons] at hclean
      obtain ⟨hkind, hclean⟩ := hclean
      have htakes := htakes hkind
      rw [htakes] at hlength hlater hfront ⊢
      have hle : (readPiece (c :: rest)).2 - 1 ≤ rest.length := by omega
      rw [List.drop_append_of_le_length hle] at hlater
      rw [List.take_append_of_le_length hle] at hfront ⊢
      have hrest : rest.take ((readPiece (c :: rest)).2 - 1) ++ front.flatMap Piece.chars = rest :=
        (List.cons.inj hfront).2
      have hboth := ih (hs.tail.drop _) hclean hlater
        (List.append_cancel_left (hrest.trans (List.take_append_drop _ rest).symm))
      rw [pieces_cons, hboth.1, hsame]
      exact ⟨rfl, hboth.2⟩

/-! ### Lines that end -/

/-- A newline token of the text ends at byte `offset`. -/
def LineEndsAt (cs : List Char) (offset : Nat) : Prop :=
  ∃ lexeme ∈ lexemesFrom 0 (pieces cs), lexeme.token = .newline ∧ lexeme.span.stop = offset

instance (cs : List Char) (offset : Nat) : Decidable (LineEndsAt cs offset) :=
  inferInstanceAs (Decidable (∃ lexeme ∈ lexemesFrom 0 (pieces cs),
    lexeme.token = .newline ∧ lexeme.span.stop = offset))

/-- Where a token comes from. -/
theorem mem_lexemesFrom {ps : List Piece} {offset : Nat} {lexeme : Lexeme}
    (h : lexeme ∈ lexemesFrom offset ps) :
    ∃ front chars back, ps = front ++ ⟨.token lexeme.token, chars⟩ :: back ∧
      lexeme.span = ⟨offset + byteLength (front.flatMap Piece.chars),
        offset + byteLength (front.flatMap Piece.chars ++ chars)⟩ := by
  induction ps generalizing offset with
  | nil => simp [lexemesFrom] at h
  | cons p ps ih =>
    have hlater : lexeme ∈ lexemesFrom (offset + byteLength p.chars) ps →
        ∃ front chars back, p :: ps = front ++ ⟨.token lexeme.token, chars⟩ :: back ∧
          lexeme.span = ⟨offset + byteLength (front.flatMap Piece.chars),
            offset + byteLength (front.flatMap Piece.chars ++ chars)⟩ := by
      intro hmem
      obtain ⟨front, chars, back, rfl, hspan⟩ := ih hmem
      refine ⟨p :: front, chars, back, rfl, ?_⟩
      rw [hspan, List.flatMap_cons, List.append_assoc, byteLength_append p.chars,
        byteLength_append p.chars, Nat.add_assoc, Nat.add_assoc]
    obtain ⟨kind, chars⟩ := p
    unfold lexemesFrom at h
    cases kind with
    | token t =>
      rcases List.mem_cons.mp h with rfl | h
      · exact ⟨[], chars, ps, rfl, by simp⟩
      · exact hlater h
    | gap => exact hlater h
    | fault => exact hlater h

theorem readToken?_of_mem_lexemesFrom {cs : List Char} {offset : Nat} {lexeme : Lexeme}
    (h : lexeme ∈ lexemesFrom offset (pieces cs)) :
    ∃ ahead n, readToken? ahead = some (lexeme.token, n) := by
  obtain ⟨front, chars, back, hpieces, -⟩ := mem_lexemesFrom h
  have hmem : (⟨.token lexeme.token, chars⟩ : Piece) ∈ pieces cs := by
    rw [hpieces]
    exact List.mem_append_right _ List.mem_cons_self
  obtain ⟨ahead, n, hread, -⟩ := readToken?_of_mem_pieces hmem
  exact ⟨ahead, n, hread⟩

/-- Every token of a text is written by its piece. -/
theorem writtenAs_of_mem_pieces {cs : List Char} {t : Token} {chars : List Char}
    (h : (⟨.token t, chars⟩ : Piece) ∈ pieces cs) : t.WrittenAs chars := by
  obtain ⟨ahead, n, hread, rfl⟩ := readToken?_of_mem_pieces h
  exact (readToken?_writtenAs hread).2

/-- The pieces of the whole up to the line's end are the first half. -/
theorem LineEndsAt.split (h : LineEndsAt (a ++ b) (byteLength a)) :
    ∃ front chars back, pieces (a ++ b) = (front ++ [⟨.token .newline, chars⟩]) ++ back ∧
      front.flatMap Piece.chars ++ chars = a ∧ IsLineEnd chars := by
  obtain ⟨lexeme, hmem, hnewline, hstop⟩ := h
  obtain ⟨front, chars, back, hcut, hplace⟩ := mem_lexemesFrom hmem
  rw [hnewline] at hcut
  have hwritten : Token.newline.WrittenAs chars := writtenAs_of_mem_pieces (by rw [hcut]; simp)
  -- They cover as many bytes as it does.
  have hchars : front.flatMap Piece.chars ++ chars ++ back.flatMap Piece.chars = a ++ b := by
    have := pieces_chars (a ++ b)
    rw [hcut] at this
    simpa using this
  have hsize : byteLength (front.flatMap Piece.chars ++ chars) = byteLength a := by
    rw [← hstop, hplace]
    exact (Nat.zero_add _).symm
  refine ⟨front, chars, back, by rw [hcut]; simp, (eq_of_byteLength_eq hchars hsize).1, hwritten⟩

theorem LineEndsAt.endsLine (h : LineEndsAt (a ++ b) (byteLength a)) : EndsLine a := by
  obtain ⟨front, chars, back, -, ha, hend⟩ := h.split
  rw [← ha, EndsLine]
  rcases hend with rfl | rfl
  · simp
  · simp

/-- **A text with a line that ends at `a` is scanned as `a` and the rest are**, and the
last of the pieces of `a` is that line's end. -/
theorem LineEndsAt.cut (h : LineEndsAt (a ++ b) (byteLength a))
    (hclean : ∀ p ∈ pieces a, p.kind ≠ .fault) : pieces (a ++ b) = pieces a ++ pieces b ∧
      ∃ front chars, pieces a = front ++ [⟨.token .newline, chars⟩] := by
  obtain ⟨front, chars, back, hcut, ha, -⟩ := h.split
  obtain ⟨hfront, hback⟩ := pieces_append b (Or.inr h.endsLine) hclean hcut (by simpa using ha)
  exact ⟨by rw [hfront, hback, hcut], front, chars, hfront⟩

end Scrutiny
