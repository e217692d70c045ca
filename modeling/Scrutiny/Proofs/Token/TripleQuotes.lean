/-
What three quotes in a row begin.

Where three quotes stand and no three close them, the first two are an empty literal, and
the third begins what comes next.  That is a fault, reported as an unclosed triple quote,
if nothing closes it on its line; but if a single quote does, it is a literal again, and
the text is read as two literals that touch.
-/
import Scrutiny.Proofs.Token.Lossless
import Scrutiny.Proofs.Token.Rendering

namespace Scrutiny

variable {n : Nat}

namespace Quoted

variable {q : Char} {body : List Char}

/-- Three quotes close a body. -/
def ClosesThree (q : Char) (body : List Char) : Prop :=
  ∃ inner rest, body = inner ++ q :: q :: q :: rest ∧ Closes [q, q, q] [] inner

/-- A single quote closes a body on its line. -/
def ClosesOne (q : Char) (body : List Char) : Prop :=
  ∃ inner rest, body = inner ++ q :: rest ∧ Closes [q] ['\r', '\n'] inner

variable (hq : isQuote q = true)

include hq

theorem closeThree?_isSome : (closeThree? q body).isSome = true ↔ ClosesThree q body :=
  (closeThree?_finds hq).isSome_iff (by simp)

theorem closeOne?_isSome : (closeOne? q body).isSome = true ↔ ClosesOne q body :=
  (closeOne?_finds hq).isSome_iff (by simp)

/-! ### Lengths -/

/-- If no three quotes close the body, the first two of the opening ones are a literal. -/
theorem unmarkedLength?_two (h : closeThree? q body = none) :
    unmarkedLength? (q :: q :: q :: body) = some 2 := by
  simp [unmarkedLength?, hq, h, closeOne?_plain (isQuote_ne_backslash hq)]

/-- The third of them is then not the first of three that anything closes. -/
theorem unmarkedLength?_third (h : closeThree? q body = none) :
    unmarkedLength? (q :: body) = (closeOne? q body).map (· + 1) := by
  have hthree (htake : body.take 2 = [q, q]) : closeThree? q (body.drop 2) = none := by
    have hback := isQuote_ne_backslash hq
    obtain ⟨rest, rfl⟩ : ∃ rest, body = q :: q :: rest := by
      refine ⟨body.drop 2, ?_⟩
      calc body = body.take 2 ++ body.drop 2 := (List.take_append_drop 2 body).symm
        _ = q :: q :: body.drop 2 := by rw [htake]; rfl
    rw [closeThree?_plain hback] at h
    split at h
    · cases h
    · rw [Option.map_eq_none_iff, closeThree?_plain hback] at h
      split at h
      · cases h
      · exact Option.map_eq_none_iff.mp h
  simp only [unmarkedLength?, hq, if_true]
  split
  · rename_i htake
    rw [hthree htake]
    rfl
  · rfl

theorem length?_bare (rest : List Char) :
    length? (q :: rest) = unmarkedLength? (q :: rest) := by
  have hletters (c : Char) (hc : c ∈ ([] : List Char)) : isMarkLetter c = true := by simp at hc
  rw [← List.nil_append (q :: rest), length?_letters hletters (by simp) hq]
  simp

end Quoted

/-! ### Pieces -/

/-- The piece that a string literal is. -/
def Piece.string (text : List Char) : Piece := ⟨.token (.string (String.ofList text)), text⟩

/-- A literal that can be read at the front is the first piece. -/
theorem pieces_string {text rest : List Char}
    (h : Quoted.length? (text ++ rest) = some text.length) :
    pieces (text ++ rest) = .string text :: pieces rest := by
  have htake : (text ++ rest).take text.length = text := List.take_left
  obtain ⟨c, more, hcons, hc⟩ := (string_standsAlone h).head
  rw [htake, Token.text, String.toList_ofList] at hcons
  subst hcons
  refine pieces_of_readPiece (List.cons_ne_nil _ _) ?_
  rw [List.cons_append] at h htake ⊢
  rw [readPiece, gapLength?_of_head hc, readToken?_of_head hc, h, Option.map_some, htake]
  rfl

/-- A quote that no literal begins with is a fault. -/
theorem pieces_open {q : Char} {body : List Char} (hq : Quoted.isQuote q = true)
    (h : Quoted.unmarkedLength? (q :: body) = none) :
    ∃ more rest, pieces (q :: body) = ⟨.fault, q :: more⟩ :: pieces rest := by
  have hbreaks : q ∉ breaks := notMem_breaks (by decide) hq
  have hlength : Quoted.length? (q :: body) = none := by rw [Quoted.length?_bare hq, h]
  have hword : wordLength? (q :: body) = none := by
    rcases (by simpa [Quoted.isQuote] using hq : q = '"' ∨ q = '\'') with rfl | rfl
    · rfl
    · rfl
  have hnumeral : Numeral.length? (q :: body) = none := by
    cases hread : Numeral.length? (q :: body) with
    | none => rfl
    | some n =>
      obtain ⟨c, rest, hcons, hc⟩ := Numeral.length?_head hread
      obtain rfl := (List.cons.inj hcons).1
      have hno : Quoted.isQuote q = false := of_numeralHeads (by decide) hc
      rw [hno] at hq
      cases hq
  have hsymbol : Symbol.read? (q :: body) = none := by
    cases hread : Symbol.read? (q :: body) with
    | none => rfl
    | some found =>
      obtain ⟨s, n⟩ := found
      obtain ⟨hpos, htext⟩ := Symbol.read?_text hread
      obtain ⟨m, rfl⟩ : ∃ m, n = m + 1 := ⟨n - 1, by omega⟩
      have hbegins := s.begins
      simp [htext, beginsSymbol, hq] at hbegins
  have htoken : readToken? (q :: body) = none := by
    rw [readToken?_of_head hbreaks, hlength, hword, hnumeral, hsymbol]
    rfl
  have hpiece : readPiece (q :: body) = (.fault, 1 + Quoted.openLength q body) := by
    rw [readPiece, gapLength?_of_head hbreaks, htoken]
    simp [faultLength, hq]
  refine ⟨body.take (Quoted.openLength q body), body.drop (Quoted.openLength q body), ?_⟩
  rw [pieces_cons, hpiece]
  simp

/-- A text with a faulty piece has no token stream, and the fault is among its errors. -/
theorem tokenize_of_fault {source : String} {front back : List Piece} {chars : List Char}
    (h : pieces source.toList = front ++ ⟨.fault, chars⟩ :: back) :
    ∃ errors, tokenize source = .error errors ∧ ∃ error ∈ errors.toList,
      error.span.start = byteLength (front.flatMap Piece.chars) ∧
      error.fault = .ofPiece source.toList (.ofText source.toList) chars error.span.start := by
  have hmem : (chars, ⟨byteLength (front.flatMap Piece.chars),
      byteLength (front.flatMap Piece.chars) + byteLength chars⟩)
      ∈ faultsFrom 0 (pieces source.toList) := by
    rw [h, faultsFrom_append]
    simp [faultsFrom]
  cases hfaults : faultsFrom 0 (pieces source.toList) with
  | nil => simp [hfaults] at hmem
  | cons first more =>
    let report (found : List Char × Span) : TokenError :=
      ⟨.ofPiece source.toList (.ofText source.toList) found.1 found.2.start, found.2⟩
    have hscan : scan source.toList = .error ⟨report first, more.map report⟩ := by
      rw [scan, hfaults]
      rfl
    refine ⟨⟨report first, more.map report⟩, by rw [tokenize, hscan], ?_⟩
    rw [hfaults] at hmem
    exact ⟨_, List.mem_map_of_mem (f := report) hmem, rfl, rfl⟩

/-! ### Three quotes in a row -/

/-- The scanner comes to a place, behind the pieces `front`, where up to two letters and
three quotes stand in front of `body`. -/
structure OpensTriple (cs : List Char) (front : List Piece) (letters : List Char) (q : Char)
    (body : List Char) : Prop where
  cut : pieces cs = front ++ pieces (letters ++ q :: q :: q :: body)
  letter : ∀ c ∈ letters, Quoted.isMarkLetter c = true
  few : letters.length ≤ 2
  quote : Quoted.isQuote q = true

/-- A string literal with this text is a token of a source: the scanner reads it, and it is
in the token stream if there is one. -/
structure StringAt (source : String) (start : Nat) (text : List Char) : Prop where
  read : ⟨.string (String.ofList text), ⟨start, start + byteLength text⟩⟩ ∈
    lexemesFrom 0 (pieces source.toList)
  kept : ∀ stream, tokenize source = .ok stream →
    ⟨.string (String.ofList text), ⟨start, start + byteLength text⟩⟩ ∈ stream.tokens

theorem StringAt.of_pieces {source : String} {front back : List Piece} {text : List Char}
    (h : pieces source.toList = front ++ .string text :: back) :
    StringAt source (byteLength (front.flatMap Piece.chars)) text := by
  have hread : ⟨.string (String.ofList text), ⟨byteLength (front.flatMap Piece.chars),
      byteLength (front.flatMap Piece.chars) + byteLength text⟩⟩ ∈
      lexemesFrom 0 (pieces source.toList) := by
    rw [h, lexemesFrom_append]
    simp [lexemesFrom, Piece.string]
  exact ⟨hread, fun stream hstream => tokenize_keeps hstream hread (by simp)⟩

/-- A source is refused, and one of its errors is that the quotes before `third` and the one
there are not closed. -/
def ReportsTriple (source : String) (third : Nat) : Prop :=
  ∃ errors, tokenize source = .error errors ∧ ∃ error ∈ errors.toList,
    error.span.start = third ∧
    error.fault.message = "unterminated triple-quoted string literal (detected at line " ++
      toString ((LineTable.ofText source.toList).line third) ++ ")"

section

variable {source : String} {front : List Piece} {letters : List Char} {q : Char} {body : List Char}

/-- Where the third quote stands. -/
def OpensTriple.third (front : List Piece) (letters : List Char) : Nat :=
  byteLength (front.flatMap Piece.chars) + byteLength letters + 2

variable (h : OpensTriple source.toList front letters q body)

include h

/-- If three quotes close the body, the literal is one token. -/
theorem OpensTriple.whole (hclose : Quoted.closeThree? q body = some n) : ∃ inner rest,
      body = inner ++ q :: q :: q :: rest ∧ Quoted.Closes [q, q, q] [] inner ∧
      StringAt source (byteLength (front.flatMap Piece.chars))
        (letters ++ q :: q :: q :: inner ++ [q, q, q]) := by
  obtain ⟨inner, rest, rfl, rfl, hinner⟩ :=
    (Quoted.closeThree?_finds h.quote).sound (by simp) hclose
  have hsplit : letters ++ q :: q :: q :: (inner ++ ([q, q, q] ++ rest))
      = (letters ++ q :: q :: q :: inner ++ [q, q, q]) ++ rest := by simp
  have hlength : Quoted.length? ((letters ++ q :: q :: q :: inner ++ [q, q, q]) ++ rest)
      = some (letters ++ q :: q :: q :: inner ++ [q, q, q]).length := by
    rw [← hsplit, Quoted.length?_letters h.letter h.few h.quote,
      Quoted.unmarkedLength?_three h.quote hclose]
    simp
    omega
  have hcut := h.cut
  rw [hsplit, pieces_string hlength] at hcut
  exact ⟨inner, rest, rfl, hinner, .of_pieces hcut⟩

/-- If not, the first two quotes are a literal, and the scanner goes on at the third. -/
theorem OpensTriple.empty (hopen : Quoted.closeThree? q body = none) :
    pieces source.toList = front ++ .string (letters ++ [q, q]) :: pieces (q :: body) := by
  have hsplit : letters ++ q :: q :: q :: body = (letters ++ [q, q]) ++ q :: body := by simp
  rw [h.cut, hsplit]
  congr 1
  refine pieces_string ?_
  rw [← hsplit, Quoted.length?_letters h.letter h.few h.quote,
    Quoted.unmarkedLength?_two h.quote hopen]
  simp [Nat.add_comm]

omit h in
theorem byteLength_quotes (hq : Quoted.isQuote q = true) : byteLength [q, q] = 2 := by
  rcases (by simpa [Quoted.isQuote] using hq : q = '"' ∨ q = '\'') with rfl | rfl
  · rfl
  · rfl

/-- The third quote stands behind the empty literal. -/
theorem OpensTriple.third_eq :
    byteLength ((front ++ [Piece.string (letters ++ [q, q])]).flatMap Piece.chars)
      = third front letters := by
  rw [List.flatMap_append, List.flatMap_singleton, byteLength_append, Piece.string,
    byteLength_append, byteLength_quotes h.quote, third, Nat.add_assoc]

/-- If a single quote closes what the third begins, that is a literal too. -/
theorem OpensTriple.split
    (hopen : Quoted.closeThree? q body = none) (hclose : Quoted.closeOne? q body = some n) :
    ∃ inner rest, body = inner ++ q :: rest ∧ Quoted.Closes [q] ['\r', '\n'] inner ∧
      StringAt source (byteLength (front.flatMap Piece.chars)) (letters ++ [q, q]) ∧
      StringAt source (third front letters) (q :: inner ++ [q]) := by
  have hempty := h.empty hopen
  have hthird := Quoted.unmarkedLength?_third h.quote hopen
  obtain ⟨inner, rest, rfl, rfl, hinner⟩ :=
    (Quoted.closeOne?_finds h.quote).sound (by simp) hclose
  refine ⟨inner, rest, rfl, hinner, .of_pieces hempty, ?_⟩
  have hsplit : q :: (inner ++ ([q] ++ rest)) = (q :: inner ++ [q]) ++ rest := by simp
  have hpieces :
      pieces (q :: (inner ++ ([q] ++ rest))) = .string (q :: inner ++ [q]) :: pieces rest := by
    rw [hsplit]
    refine pieces_string ?_
    rw [← hsplit, Quoted.length?_bare h.quote, hthird, hclose]
    simp
  rw [← h.third_eq]
  rw [hpieces, List.append_cons] at hempty
  exact .of_pieces hempty

/-- If nothing closes it on its line, three unclosed quotes are reported. -/
theorem OpensTriple.reported
    (hopen : Quoted.closeThree? q body = none) (hone : Quoted.closeOne? q body = none) :
    ReportsTriple source (third front letters) := by
  have hempty := h.empty hopen
  have hthird : Quoted.unmarkedLength? (q :: body) = none := by
    rw [Quoted.unmarkedLength?_third h.quote hopen, hone]
    rfl
  obtain ⟨more, rest, hfault⟩ := pieces_open h.quote hthird
  have hpieces : pieces source.toList =
      (front ++ [.string (letters ++ [q, q])]) ++ ⟨.fault, q :: more⟩ :: pieces rest := by
    rw [hempty, hfault, List.append_cons]
  obtain ⟨errors, herrors, error, hmem, hstart, hkind⟩ := tokenize_of_fault hpieces
  -- The two characters before the fault are the quotes of the empty literal.
  have hbefore : sliceBytes? source.toList ⟨third front letters - 2, third front letters⟩
      = some [q, q] := by
    have hchars : source.toList
        = (front.flatMap Piece.chars ++ letters) ++ [q, q] ++ (q :: body) := by
      rw [← pieces_chars source.toList, hempty, List.flatMap_append, List.flatMap_cons,
        pieces_chars]
      simp [Piece.string]
    have hslice := sliceBytes?_append (front.flatMap Piece.chars ++ letters) [q, q] (q :: body)
    rw [← hchars, byteLength_quotes h.quote, byteLength_append] at hslice
    exact hslice
  have hplace : error.span.start = third front letters := hstart.trans h.third_eq
  refine ⟨errors, herrors, error, hmem, hplace, ?_⟩
  rw [hkind, hplace]
  simp only [TokenFault.ofPiece, h.quote, hbefore, if_true]
  rfl

end

/--
**What becomes of three quotes in a row.**  Let the scanner come to up to two letters and
three quotes.

If three quotes close the body, the whole literal is one token.  If not, and no single
quote closes on its line what the third quote begins, the text is refused with an error for
an unclosed triple quote at the third quote.  And if one does, two literals that touch are
read in its place: an empty one, and one that begins with the third quote.
-/
theorem triple_quote_outcome {source : String} {front : List Piece} {letters : List Char} {q : Char}
    {body : List Char} (h : OpensTriple source.toList front letters q body) :
    (Quoted.ClosesThree q body → ∃ inner rest,
        body = inner ++ q :: q :: q :: rest ∧ Quoted.Closes [q, q, q] [] inner ∧
        StringAt source (byteLength (front.flatMap Piece.chars))
          (letters ++ q :: q :: q :: inner ++ [q, q, q])) ∧
      (¬ Quoted.ClosesThree q body → ¬ Quoted.ClosesOne q body →
        ReportsTriple source (OpensTriple.third front letters)) ∧
      (¬ Quoted.ClosesThree q body → Quoted.ClosesOne q body → ∃ inner rest,
        body = inner ++ q :: rest ∧ Quoted.Closes [q] ['\r', '\n'] inner ∧
        StringAt source (byteLength (front.flatMap Piece.chars)) (letters ++ [q, q]) ∧
        StringAt source (OpensTriple.third front letters) (q :: inner ++ [q])) := by
  have hopen (hthree : ¬ Quoted.ClosesThree q body) : Quoted.closeThree? q body = none := by
    rw [← Quoted.closeThree?_isSome h.quote] at hthree
    simpa using hthree
  refine ⟨fun hthree => ?_, fun hthree hone => ?_, fun hthree hone => ?_⟩
  · rw [← Quoted.closeThree?_isSome h.quote] at hthree
    obtain ⟨n, hn⟩ := Option.isSome_iff_exists.mp hthree
    exact h.whole hn
  · rw [← Quoted.closeOne?_isSome h.quote] at hone
    exact h.reported (hopen hthree) (by simpa using hone)
  · rw [← Quoted.closeOne?_isSome h.quote] at hone
    obtain ⟨n, hn⟩ := Option.isSome_iff_exists.mp hone
    exact h.split (hopen hthree) hn

/-- A literal with a letter before its quotes that ends with the text. -/
theorem triple_quote_outcome_unclosed :
    OpensTriple "x=b\"\"\"a".toList [⟨.token (.name "x"), ['x']⟩, ⟨.token (.symbol .assign), ['=']⟩]
        ['b'] '"' ['a'] ∧
      ReportsTriple "x=b\"\"\"a" 5 := by
  have hopens : OpensTriple "x=b\"\"\"a".toList
      [⟨.token (.name "x"), ['x']⟩, ⟨.token (.symbol .assign), ['=']⟩] ['b'] '"' ['a'] :=
    ⟨by decide +kernel, by simp [Quoted.isMarkLetter], by decide, by decide⟩
  refine ⟨hopens, (triple_quote_outcome hopens).2.1 ?_ ?_⟩
  · rw [← Quoted.closeThree?_isSome rfl]
    decide
  · rw [← Quoted.closeOne?_isSome rfl]
    decide

/-- Three quotes that no three close, and a text that is accepted: an empty literal, and a
literal right behind it that begins with the third quote. -/
theorem triple_quote_read_as_two :
    OpensTriple "\"\"\"a\"\n".toList [] [] '"' ['a', '"', '\n'] ∧
      (tokenize "\"\"\"a\"\n").toOption = some
        ⟨[⟨.string "\"\"", ⟨0, 2⟩⟩, ⟨.string "\"a\"", ⟨2, 5⟩⟩, ⟨.newline, ⟨5, 6⟩⟩],
          [⟨1, "", false⟩]⟩ :=
  ⟨⟨by decide +kernel, by simp, by decide, by decide⟩, by decide +kernel⟩

end Scrutiny
