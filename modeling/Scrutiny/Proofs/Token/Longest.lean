/-
The longest reading is taken.

Several readings may be possible at a place: the letters before a quote are a word too, and a
point before a digit is a symbol.  What characters can be read as is said here apart from the
order in which the scanner tries (`Readable`), and no reading at a place is longer than the one
that it takes (`readToken?_longest`).

Within a kind a reader takes all that it can.  The parts of a decimal are read one after
another, and a part that takes more than it has to could take the beginning of the next one.
It does not, as no part holds a character that a later one begins with (`Greedy`).  Between
the kinds there is little to compare: a word goes no further than the letters of a literal that
begins with it, and the symbol before a digit has one character.
-/
import Scrutiny.Proofs.Syntax.Integers
import Scrutiny.Proofs.Token.Apart

namespace Scrutiny

variable {cs heads later part rest word : List Char} {n : Nat} {p : Char → Bool} {t : Token}

/-- What some characters can be read as, whatever stands around them. -/
inductive Readable : List Char → Token → Prop
  | lineEnd {chars : List Char} (h : IsLineEnd chars) : Readable chars .newline
  | literal {l : Quoted.Literal} (h : l.IsRead) : Readable l.chars (.string (String.ofList l.chars))
  | word {chars : List Char} (h : IsIdentifier chars) : Readable chars (.ofWord chars)
  | numeral {f : Numeral.Form} (h : f.IsRead) : Readable f.chars (.number (String.ofList f.chars))
  | symbol (s : Symbol) : Readable s.text.toList (.symbol s)

/-! ### Readers that take all they can -/

/-- A reader takes all of a part of its kind.  Where it takes more, none of `heads` follows the
part. -/
def Greedy (Is : List Char → Prop) (read : List Char → Nat) (heads : List Char) : Prop :=
  ∀ part rest, Is part → read (part ++ rest) = part.length ∨
    part.length < read (part ++ rest) ∧ ∀ c ∈ rest.head?, c ∉ heads

namespace Greedy

theorem run (hheads : heads.all (!p ·) = true) :
    Greedy (fun part => ∀ c ∈ part, p c = true) (runLength p) heads := by
  intro part rest hpart
  rw [runLength_append hpart]
  rcases Nat.eq_zero_or_pos (runLength p rest) with hzero | hpos
  · exact Or.inl (by rw [hzero, Nat.add_zero])
  · refine Or.inr ⟨by omega, fun c hc hmem => ?_⟩
    obtain ⟨more, rfl⟩ := List.head?_eq_some_iff.mp hc
    have hno : p c = false := by simpa using List.all_eq_true.mp hheads c hmem
    simp [runLength, hno] at hpos

theorem inTurn {First Second : List Char → Prop} {first second : List Char → Nat}
    (hfirst : Greedy First first heads) (hsecond : Greedy Second second later)
    (hhead : ∀ part, Second part → ∀ c ∈ part.head?, c ∈ heads) (hlater : later ⊆ heads) :
    Greedy (fun part => ∃ front back, part = front ++ back ∧ First front ∧ Second back)
      (inTurn first second) later := by
  rintro _ rest ⟨front, back, rfl, hfront, hback⟩
  rw [List.append_assoc, Scrutiny.inTurn, List.length_append]
  rcases hfirst front (back ++ rest) hfront with hexact | ⟨hmore, hnone⟩
  · rw [hexact, List.drop_left]
    exact (hsecond back rest hback).imp (congrArg _) (And.imp_left (Nat.add_lt_add_left · _))
  · -- Nothing that the second part begins with follows the first, so there is no second part.
    obtain rfl : back = [] := by
      cases back with
      | nil => rfl
      | cons c back => exact absurd (hhead _ hback c rfl) (hnone c rfl)
    exact Or.inr ⟨Nat.lt_add_right _ hmore, fun c hc => mt (hlater ·) (hnone c hc)⟩

end Greedy

/-! ### Numerals -/

namespace Numeral

theorem IsRow.isDigitLike (h : IsRow 10 part) : ∀ c ∈ part, isDigitLike c = true := by
  have hall : (digitsOf 10).all Numeral.isDigitLike = true := by decide
  intro c hc
  rcases h c hc with hdigit | rfl
  · exact List.all_eq_true.mp hall c hdigit
  · rfl

theorem digits_greedy (heads : List Char) (hheads : heads.all (!isDigitLike ·) = true) :
    Greedy (IsRow 10) (runLength isDigitLike) heads :=
  fun part rest hpart => Greedy.run hheads part rest hpart.isDigitLike

theorem fraction_greedy :
    Greedy (fun part => part = [] ∨ ∃ row, part = '.' :: row ∧ IsRow 10 row) fractionLength
      ['e', 'E', 'j', 'J'] := by
  rintro part rest (rfl | ⟨row, rfl, hrow⟩)
  · cases rest with
    | nil => exact Or.inl rfl
    | cons c rest =>
      by_cases hc : c = '.'
      · subst hc
        exact Or.inr ⟨by simp [fractionLength], by simp⟩
      · exact Or.inl (by simp [fractionLength, hc])
  · simp only [List.cons_append, fractionLength, List.length_cons]
    rcases digits_greedy ['e', 'E', 'j', 'J'] (by decide) row rest hrow with h | ⟨h, hno⟩
    · exact Or.inl (by omega)
    · exact Or.inr ⟨by omega, hno⟩

theorem signLength_append {sign row : List Char} (hsign : sign ∈ [[], ['+'], ['-']])
    (hne : row ≠ []) (hrow : IsRow 10 row) : signLength (sign ++ (row ++ rest)) = sign.length := by
  simp only [List.mem_cons, List.not_mem_nil, or_false] at hsign
  rcases hsign with rfl | rfl | rfl
  · obtain ⟨c, row, rfl⟩ := List.exists_cons_of_ne_nil hne
    have hc := hrow.isDigitLike c (by simp)
    have hplus : c ≠ '+' := by
      rintro rfl
      cases hc
    have hminus : c ≠ '-' := by
      rintro rfl
      cases hc
    simp [signLength, hplus, hminus]
  · rfl
  · rfl

theorem exponent_greedy :
    Greedy (fun part => part = [] ∨ ∃ mark sign row, part = mark :: (sign ++ row) ∧
      mark ∈ ['e', 'E'] ∧ sign ∈ [[], ['+'], ['-']] ∧ row ≠ [] ∧ IsRow 10 row) exponentLength
      ['j', 'J'] := by
  rintro part rest (rfl | ⟨mark, sign, row, rfl, hmark, hsign, hne, hrow⟩)
  · rcases Nat.eq_zero_or_pos (exponentLength rest) with hzero | hpos
    · exact Or.inl hzero
    · refine Or.inr ⟨hpos, fun c hc hmem => ?_⟩
      obtain ⟨more, rfl⟩ := List.head?_eq_some_iff.mp hc
      rcases (by simpa using hmem : c = 'j' ∨ c = 'J') with rfl | rfl <;> cases hpos
  · have hdigits := digits_greedy ['j', 'J'] (by decide) row rest hrow
    have hsome : 0 < row.length := List.length_pos_of_ne_nil hne
    have hlength : exponentLength (mark :: (sign ++ (row ++ rest)))
        = 1 + sign.length + runLength isDigitLike (row ++ rest) := by
      rw [exponentLength, if_pos (by simpa using hmark)]
      simp only [signLength_append hsign hne hrow, List.drop_left]
      exact if_neg (by omega)
    rw [List.cons_append, List.append_assoc, hlength, List.length_cons, List.length_append]
    rcases hdigits with h | ⟨h, hno⟩
    · exact Or.inl (by omega)
    · exact Or.inr ⟨by omega, hno⟩

theorem imaginary_greedy : Greedy (· ∈ [[], ['j'], ['J']]) imaginaryLength [] := by
  intro part rest hpart
  simp only [List.mem_cons, List.not_mem_nil, or_false] at hpart
  rcases hpart with rfl | rfl | rfl
  · exact (Nat.eq_zero_or_pos (imaginaryLength rest)).imp id fun hpos => ⟨hpos, by simp⟩
  · exact Or.inl rfl
  · exact Or.inl rfl

theorem Form.IsRead.le_wholeLength {whole fraction exponent imaginary : List Char}
    (h : IsRead (.decimal whole fraction exponent imaginary)) (rest : List Char) :
    (chars (.decimal whole fraction exponent imaginary)).length
      ≤ wholeLength (chars (.decimal whole fraction exponent imaginary) ++ rest) := by
  cases h with
  | decimal hwhole hfirst hfraction hexponent himaginary =>
    have hparts := (((digits_greedy ['.', 'e', 'E', 'j', 'J'] (by decide)).inTurn
        fraction_greedy ?_ (by simp)).inTurn exponent_greedy ?_ (by simp)).inTurn
        imaginary_greedy ?_ (by simp) (chars (.decimal whole fraction exponent imaginary)) rest
        ⟨whole ++ fraction ++ exponent, imaginary, by simp [chars],
          ⟨whole ++ fraction, exponent, rfl, ⟨whole, fraction, rfl, hwhole, hfraction⟩, hexponent⟩,
          himaginary⟩
    · exact hparts.elim (Nat.le_of_eq ·.symm) (Nat.le_of_lt ·.1)
    · rintro part (rfl | ⟨row, rfl, -⟩)
      · simp
      · simp
    · rintro part (rfl | ⟨mark, sign, row, rfl, hmark, -⟩)
      · simp
      · intro c hc
        obtain rfl : mark = c := by simpa using hc
        exact List.mem_append_left ['j', 'J'] hmark
    · intro part hpart
      simp only [List.mem_cons, List.not_mem_nil, or_false] at hpart
      rcases hpart with rfl | rfl | rfl <;> simp

/-- Behind the mark of a base its digits are read, and underscores. -/
theorem digitsAfterMark?_of_mem {base : Base} {mark : Char} (h : mark ∈ base.marks) :
    ∃ isDigit, digitsAfterMark? mark = some isDigit ∧
      ∀ row, IsRow base.value row → ∀ c ∈ row, isDigit c = true := by
  have hrow {base : Nat} {isDigit : Char → Bool} (hall : ('_' :: digitsOf base).all isDigit = true)
      (row : List Char) (hrow : IsRow base row) : ∀ c ∈ row, isDigit c = true := fun c hc =>
    List.all_eq_true.mp hall c (List.mem_cons.mpr (hrow c hc).symm)
  cases base with
  | hexadecimal =>
    rcases (by simpa [Base.marks] using h : mark = 'x' ∨ mark = 'X') with rfl | rfl
    · exact ⟨_, rfl, hrow (by decide)⟩
    · exact ⟨_, rfl, hrow (by decide)⟩
  | octal =>
    rcases (by simpa [Base.marks] using h : mark = 'o' ∨ mark = 'O') with rfl | rfl
    · exact ⟨_, rfl, hrow (by decide)⟩
    · exact ⟨_, rfl, hrow (by decide)⟩
  | binary =>
    rcases (by simpa [Base.marks] using h : mark = 'b' ∨ mark = 'B') with rfl | rfl
    · exact ⟨_, rfl, hrow (by decide)⟩
    · exact ⟨_, rfl, hrow (by decide)⟩

theorem Base.mark_not_decimal {mark : Char} (base : Base) (h : mark ∈ base.marks) :
    mark ∉ decimalChars := by
  have hall : base.marks.all (!decimalChars.contains ·) = true := by cases base <;> decide
  simpa using List.all_eq_true.mp hall mark h

/-- **No numeral at a place is longer than the one that is read.** -/
theorem Form.IsRead.exists_length {f : Form} (h : f.IsRead) (rest : List Char) :
    ∃ n, length? (f.chars ++ rest) = some n ∧ f.chars.length ≤ n := by
  rw [length?]
  cases f with
  | marked base mark row =>
    cases h with
    | marked hmark hrow hne =>
      obtain ⟨isDigit, hdigits, hall⟩ := digitsAfterMark?_of_mem hmark
      have hrun := runLength_append (hall row hrow) rest
      have hpos := List.length_pos_of_ne_nil hne
      have hread := markedLength?_eq_some_iff.mpr
        ⟨mark, isDigit, row ++ rest, rfl, hdigits, by omega, rfl⟩
      refine ⟨2 + runLength isDigit (row ++ rest), ?_, ?_⟩
      · rw [chars, List.cons_append, List.cons_append, hread]
        rfl
      · simp only [chars, List.length_cons]
        omega
  | decimal whole fraction exponent imaginary =>
    cases hmarked : markedLength? (chars (.decimal whole fraction exponent imaginary) ++ rest) with
    | none =>
      have hbegins : beginsDecimal (chars (.decimal whole fraction exponent imaginary) ++ rest)
          = true := by
        have hall : (digitsOf 10).all Char.isDigit = true := by decide
        cases h with
        | decimal hwhole hfirst =>
          obtain ⟨c, more, hc, hfirst⟩ := hfirst
          have hdigit := List.all_eq_true.mp hall c hc
          rcases hfirst with rfl | ⟨rfl, rfl⟩
          · simp [chars, beginsDecimal, hdigit]
          · simp [chars, beginsDecimal, hdigit]
      refine ⟨_, ?_, h.le_wholeLength rest⟩
      rw [Option.orElse_none, decimalLength?_eq, if_pos hbegins]
    | some n =>
      refine ⟨n, rfl, ?_⟩
      -- No decimal has the mark that stands behind the zero, so it is the zero alone.
      obtain ⟨mark, isDigit, more, hcs, hdigits, -, rfl⟩ := markedLength?_eq_some_iff.mp hmarked
      obtain ⟨base, hmark, -⟩ := base_of_digitsAfterMark? hdigits
      have hmem := h.mem_decimalChars
      generalize chars (.decimal whole fraction exponent imaginary) = decimal at hcs hmem ⊢
      rcases decimal with _ | ⟨first, _ | ⟨c, tail⟩⟩
      · exact Nat.zero_le _
      · exact Nat.le_add_right_of_le (by simp)
      · obtain rfl : c = mark := (List.cons.inj (List.cons.inj hcs).2).1
        exact absurd (hmem c (by simp)) (base.mark_not_decimal hmark)

end Numeral

/-! ### Literals and words -/

/-- A literal with one quote is no longer than one with three at its place. -/
theorem Quoted.Literal.At.exists_length {l : Literal} (h : l.At cs) :
    ∃ n, length? cs = some n ∧ l.chars.length ≤ n := by
  cases hread : length? cs with
  | none => exact absurd h (length?_eq_none_iff.mp hread l)
  | some n =>
    obtain ⟨found, hfound, hchoice, rfl⟩ := length?_eq_some_iff.mp hread
    refine ⟨_, rfl, ?_⟩
    obtain ⟨hletters, -⟩ := h.opening hfound
    cases hsingle : l.isTriple with
    | true =>
      rw [h.triple_length? hsingle] at hread
      exact Nat.le_of_eq (Option.some.inj hread)
    | false =>
      cases htriple : found.isTriple with
      | true =>
        have hempty := (h.empty hfound hsingle htriple).1
        simp [chars, delimiter, hsingle, htriple, hempty, hletters]
      | false =>
        rw [h.single_length? hsingle (hchoice htriple)] at hread
        exact Nat.le_of_eq (Option.some.inj hread)

theorem IsIdentifier.exists_length (h : IsIdentifier word) (rest : List Char) :
    ∃ n, wordLength? (word ++ rest) = some n ∧ word.length ≤ n := by
  cases word with
  | nil => exact h.elim
  | cons c word =>
    refine ⟨1 + runLength continuesIdentifier (word ++ rest), by simp [wordLength?, h.1], ?_⟩
    rw [runLength_append h.2, List.length_cons]
    omega

/-- A word at the place of a literal is among its letters. -/
theorem IsIdentifier.length_le (h : IsIdentifier word) {l : Quoted.Literal}
    (hat : l.At (word ++ rest)) : word.length ≤ l.chars.length := by
  obtain ⟨more, hmore⟩ := l.exists_opening
  obtain ⟨after, hsplit⟩ := hat.front
  rw [hmore, List.append_assoc, List.cons_append] at hsplit
  rw [hmore, List.length_append]
  rcases List.append_eq_append_iff.mp hsplit with ⟨gap, rfl, hgap⟩ | ⟨gap, hgap, -⟩
  · cases gap with
    | nil => simp
    | cons d gap =>
      have hquote := hat.isRead.quote
      rw [(List.cons.inj hgap).1, h.notQuoted d (by simp)] at hquote
      cases hquote
  · rw [hgap, List.length_append]
    omega

/-! ### Tokens -/

/-- What is read can be read so. -/
theorem ReadAs.readable (h : ReadAs cs t n) : Readable (cs.take n) t := by
  cases h with
  | lineEnd hend => exact .lineEnd (lineEndLength?_isLineEnd hend).2
  | literal hquoted =>
    obtain ⟨l, hread, -, htake, -⟩ := Quoted.exists_literal hquoted
    rw [htake]
    exact .literal hread
  | word hword => exact .word (wordLength?_isIdentifier hword).2
  | numeral hnumeral =>
    obtain ⟨f, hread, htake⟩ := Numeral.exists_form hnumeral
    rw [htake]
    exact .numeral hread
  | @symbol s _ hsymbol =>
    rw [← (Symbol.read?_text hsymbol).2]
    exact .symbol s

/-- Where something can be read, something is read that is no shorter. -/
theorem Readable.exists_longer {chars : List Char} (h : Readable chars t) (rest : List Char) :
    ∃ found n, readToken? (chars ++ rest) = some (found, n) ∧ chars.length ≤ n := by
  cases h with
  | lineEnd hend =>
    rcases hend with rfl | rfl
    · exact ⟨.newline, 1, rfl, Nat.le_refl 1⟩
    · exact ⟨.newline, 2, rfl, Nat.le_refl 2⟩
  | @literal l hread =>
    obtain ⟨n, hlength, hle⟩ := Quoted.Literal.At.exists_length ⟨hread, List.prefix_append _ rest⟩
    obtain ⟨c, more, hchars, hhead⟩ := l.head hread
    have hc : c ∉ breaks :=
      hhead.elim (notMem_breaks (by decide)) (notMem_breaks (by decide))
    rw [hchars] at hlength hle ⊢
    rw [List.cons_append] at hlength ⊢
    rw [readToken?_of_head hc, hlength]
    exact ⟨_, n, rfl, hle⟩
  | word hword =>
    obtain ⟨n, hlength, hle⟩ := hword.exists_length rest
    obtain ⟨c, more, rfl⟩ : ∃ c more, chars = c :: more := by
      cases chars with
      | nil => exact hword.elim
      | cons c more => exact ⟨c, more, rfl⟩
    have hc : c ∉ breaks := notMem_breaks (by decide +kernel) hword.1
    rw [List.cons_append] at hlength ⊢
    rw [readToken?_of_head hc, hlength]
    cases hquoted : Quoted.length? (c :: (more ++ rest)) with
    | none => exact ⟨_, n, rfl, hle⟩
    | some m =>
      obtain ⟨l, hat, -, rfl⟩ := Quoted.length?_eq_some_iff.mp hquoted
      exact ⟨_, _, rfl, hword.length_le hat⟩
  | numeral hnumeral =>
    obtain ⟨n, hlength, hle⟩ := hnumeral.exists_length rest
    exact ⟨_, n, readToken?_of_numeral hlength, hle⟩
  | symbol s =>
    cases hnumeral : Numeral.length? (s.text.toList ++ rest) with
    | none =>
      obtain ⟨found, n, hread, hle⟩ := s.exists_length rest
      exact ⟨.symbol found, n, s.readToken?_eq hnumeral hread, hle⟩
    | some n =>
      -- The point of a fraction, as no other symbol begins a numeral.
      refine ⟨_, n, readToken?_of_numeral hnumeral, ?_⟩
      have hpos := Numeral.length?_pos hnumeral
      obtain ⟨c, more, htext, -, -, -, -, hdigit, hnext⟩ := s.exists_head
      cases more with
      | nil =>
        rw [htext]
        exact hpos
      | cons d more =>
        rw [htext, List.cons_append,
          Numeral.length?_of_head hdigit (by simpa using hnext)] at hnumeral
        cases hnumeral

/-- **The longest reading is taken.**  What is read at the front can be read so, and nothing that
can be read there is longer. -/
theorem readToken?_longest (h : readToken? cs = some (t, n)) : Readable (cs.take n) t ∧
    ∀ {chars : List Char} {other : Token}, Readable chars other → chars <+: cs →
      chars.length ≤ n := by
  refine ⟨(ReadAs.of_readToken? h).readable, ?_⟩
  rintro chars other hreadable ⟨rest, rfl⟩
  obtain ⟨found, m, hread, hle⟩ := hreadable.exists_longer rest
  obtain rfl : m = n := by simp_all
  exact hle

/-- **Nothing is read only where nothing can be read.** -/
theorem readToken?_eq_none_iff :
    readToken? cs = none ↔ ∀ chars t, Readable chars t → ¬ chars <+: cs := by
  constructor
  · rintro hnone chars t hreadable ⟨rest, rfl⟩
    obtain ⟨found, n, hread, -⟩ := hreadable.exists_longer rest
    rw [hnone] at hread
    cases hread
  · intro hno
    cases hread : readToken? cs with
    | none => rfl
    | some found =>
      exact absurd (List.take_prefix _ cs) (hno _ _ (readToken?_longest hread).1)

/-! ### Along a text -/

/-- What is left of the pieces is the pieces of what is left. -/
theorem pieces_suffix {front back : List Piece} (h : pieces cs = front ++ back) :
    pieces (back.flatMap Piece.chars) = back := by
  induction front generalizing cs with
  | nil => rw [← List.nil_append back, ← h, pieces_chars]
  | cons p front ih =>
    cases cs with
    | nil => simp [pieces] at h
    | cons c cs =>
      rw [pieces_cons, List.cons_append] at h
      exact ih (List.cons.inj h).2

/-- **Every token of a text is the longest that can be read where it begins.** -/
theorem pieces_longest {chars : List Char} {front back : List Piece}
    (h : pieces cs = front ++ ⟨.token t, chars⟩ :: back) : Readable chars t ∧
      ∀ {other : List Char} {token : Token}, Readable other token →
        other <+: chars ++ back.flatMap Piece.chars → other.length ≤ chars.length := by
  have hpieces := pieces_suffix h
  rw [List.flatMap_cons] at hpieces
  generalize chars ++ back.flatMap Piece.chars = ahead at hpieces ⊢
  cases ahead with
  | nil => simp [pieces] at hpieces
  | cons c rest =>
    rcases hpiece : readPiece (c :: rest) with ⟨kind, n⟩
    rw [pieces_cons, hpiece, List.cons.injEq, Piece.mk.injEq] at hpieces
    obtain ⟨⟨rfl, hchars⟩, -⟩ := hpieces
    obtain ⟨m, rfl⟩ : ∃ m, n = m + 1 := ⟨n - 1, by have := (readPiece_token hpiece).1; omega⟩
    obtain rfl : (c :: rest).take (m + 1) = chars := hchars
    obtain ⟨hreadable, hlongest⟩ := readToken?_longest (readToken?_of_readPiece hpiece)
    refine ⟨hreadable, fun hother hfront => ?_⟩
    rw [List.length_take]
    exact Nat.le_min.mpr ⟨hlongest hother hfront, hfront.length_le⟩

end Scrutiny
