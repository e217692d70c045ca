/-
Where string literals end.

Every string token of a source is a literal as a reader would find it, and wherever the
scanner comes to such a literal it reads it (`string_tokens_read_exactly`).
-/
import Scrutiny.Proofs.Token.TripleQuotes

namespace Scrutiny

/-! ### String tokens -/

/-- A string token is a literal, and a number token is a numeral. -/
theorem length?_of_readToken? {cs : List Char} {t : Token} {n : Nat}
    (h : readToken? cs = some (t, n)) (text : String) :
    (t = .string text → Quoted.length? cs = some n ∧ text = String.ofList (cs.take n)) ∧
      (t = .number text → Numeral.length? cs = some n ∧ text = String.ofList (cs.take n)) := by
  cases ReadAs.of_readToken? h with
  | literal hquoted => exact ⟨fun ht => ⟨hquoted, (Token.string.inj ht).symm⟩, nofun⟩
  | numeral hnumeral => exact ⟨nofun, fun ht => ⟨hnumeral, (Token.number.inj ht).symm⟩⟩
  | word =>
    unfold Token.ofWord
    split <;> exact ⟨nofun, nofun⟩
  | lineEnd | symbol => exact ⟨nofun, nofun⟩

theorem literal_of_mem_lexemesFrom {cs : List Char} {offset : Nat} {lexeme : Lexeme} {text : String}
    (h : lexeme ∈ lexemesFrom offset (pieces cs)) (htext : lexeme.token = .string text) :
    ∃ l : Quoted.Literal, l.IsRead ∧ text.toList = l.chars := by
  obtain ⟨ahead, n, hread⟩ := readToken?_of_mem_lexemesFrom h
  obtain ⟨hlength, rfl⟩ := (length?_of_readToken? hread text).1 htext
  obtain ⟨l, ⟨hl, rest, rfl⟩, -, rfl⟩ := Quoted.length?_eq_some_iff.mp hlength
  exact ⟨l, hl, by simp⟩

/--
**String literals end at the first delimiter that nothing protects.**  Every string token
that is scanned in a source is up to two letters, a delimiter of one quote or three, a body
and the same delimiter, and a reader of the body meets no unprotected delimiter in it and,
with one quote, no unprotected end of a line.

And wherever the scanner comes to a place where such a literal can be read, it reads that
literal: one with three quotes if there is one, and otherwise one with one quote.
-/
theorem string_tokens_read_exactly (source : String) :
    (∀ lexeme ∈ lexemesFrom 0 (pieces source.toList), ∀ text, lexeme.token = .string text →
      ∃ l : Quoted.Literal, l.IsRead ∧ text.toList = l.chars) ∧
    (∀ stream, tokenize source = .ok stream → ∀ lexeme ∈ stream.tokens, ∀ text,
      lexeme.token = .string text → lexeme ∈ lexemesFrom 0 (pieces source.toList)) ∧
    ∀ (front : List Piece) (ahead : List Char) (l : Quoted.Literal),
      pieces source.toList = front ++ pieces ahead → l.At ahead →
      (l.isTriple = false → Quoted.NoTriple ahead) →
        pieces source.toList = front ++ .string l.chars :: pieces (ahead.drop l.chars.length) ∧
          StringAt source (byteLength (front.flatMap Piece.chars)) l.chars := by
  refine ⟨fun lexeme hlexeme text => literal_of_mem_lexemesFrom hlexeme,
    fun stream h lexeme hlexeme text htext =>
      (tokenize_scanned h hlexeme (by simp [htext, Token.isMark])).1,
    fun front ahead l hcut hat hchoice => ?_⟩
  have hlength : Quoted.length? ahead = some l.chars.length :=
    Quoted.length?_eq_some_iff.mpr ⟨l, hat, hchoice, rfl⟩
  obtain ⟨rest, rfl⟩ := hat.front
  rw [pieces_string hlength] at hcut
  rw [List.drop_left]
  exact ⟨hcut, .of_pieces hcut⟩

/-- Three quotes with a single one and a protected one in the body, behind a letter. -/
theorem string_tokens_read_exactly_protected :
    (⟨['r'], '"', true, ['"', 'a', '\\', '"']⟩ : Quoted.Literal).IsRead ∧
      StringAt "x=r\"\"\"\"a\\\"\"\"\"\n" 2 "r\"\"\"\"a\\\"\"\"\"".toList := by
  have hread : (⟨['r'], '"', true, ['"', 'a', '\\', '"']⟩ : Quoted.Literal).IsRead := by
    have hescape : Quoted.Takes ['\\', '"'] ([] ++ ['"', '"', '"']) := .escape (by simp)
    have hletter : Quoted.Takes ['a'] (['\\', '"'] ++ [] ++ ['"', '"', '"']) := .plain (by decide)
    have hquote : Quoted.Takes ['"'] (['a'] ++ (['\\', '"'] ++ []) ++ ['"', '"', '"']) :=
      .plain (by decide)
    refine ⟨by simp [Quoted.isMarkLetter], by decide, rfl,
      .cons hquote (.cons hletter (.cons hescape (.nil _))), ?_, ?_⟩
    · refine (Quoted.along_cons hquote).mpr ⟨?_, (Quoted.along_cons hletter).mpr ⟨?_,
        (Quoted.along_cons hescape).mpr ⟨?_, Quoted.along_nil⟩⟩⟩ <;> decide
    · refine (Quoted.along_cons hquote).mpr ⟨?_, (Quoted.along_cons hletter).mpr ⟨?_,
        (Quoted.along_cons hescape).mpr ⟨?_, Quoted.along_nil⟩⟩⟩ <;> simp [Quoted.Literal.forbidden]
  refine ⟨hread, ?_⟩
  have hat := (string_tokens_read_exactly "x=r\"\"\"\"a\\\"\"\"\"\n").2.2
    [⟨.token (.name "x"), ['x']⟩, ⟨.token (.symbol .assign), ['=']⟩]
    ("r\"\"\"\"a\\\"\"\"\"\n".toList) ⟨['r'], '"', true, ['"', 'a', '\\', '"']⟩ (by decide +kernel)
    ⟨hread, ['\n'], by decide⟩ (by simp)
  exact hat.2

end Scrutiny
