/-
Tokens that stand apart.

How far a token reaches depends on what follows it: two names are one if nothing stands
between them, and a number takes the letter behind it for a suffix.  A space or a newline
ends every token, though.  A token that was read anywhere is read again, and alone,
wherever one of them follows (`readToken?_standsAlone`).

Words and numerals depend on a run of characters that both of them end.  Literals depend on
what they take alone, but for the empty one, which a third quote would turn into the opening
of another.
-/
import Scrutiny.Proofs.Token.Locality

namespace Scrutiny

variable {c : Char} {cs word : List Char} {n : Nat} {p : Char → Bool}

/-- A text begins with a character that ends every token. -/
def Apart (cs : List Char) : Prop :=
  ∃ c rest, cs = c :: rest ∧ (c = ' ' ∨ c = '\n')

theorem Apart.head (h : Apart cs) (hspace : p ' ' = false)
    (hnewline : p '\n' = false) : ∀ c ∈ cs.head?, p c = false := by
  obtain ⟨c, rest, rfl, rfl | rfl⟩ := h
  · simpa using hspace
  · simpa using hnewline

theorem Apart.exists_cons (h : Apart cs) : ∃ c rest, cs = c :: rest := by
  obtain ⟨c, rest, rfl, -⟩ := h
  exact ⟨c, rest, rfl⟩

/-! ### Numerals -/

/-- A numeral begins with a digit, or with a point and a digit. -/
theorem Numeral.length?_of_head {rest : List Char} (hdigit : c.isDigit = false)
    (hnext : rest.head?.any Char.isDigit = false) : length? (c :: rest) = none := by
  cases hread : length? (c :: rest) with
  | none => rfl
  | some n =>
    exfalso
    rcases length?_cases hread with hmarked | ⟨hbegins, -⟩
    · obtain ⟨mark, isDigit, more, hcons, -⟩ := markedLength?_eq_some_iff.mp hmarked
      rw [(List.cons.inj hcons).1] at hdigit
      cases hdigit
    · simp [beginsDecimal, hdigit, hnext] at hbegins

/-! ### String literals -/

namespace Quoted

variable {q : Char} {cs other : List Char} {n : Nat}

theorem length?_apart (hother : Apart other) (h : length? cs = some n) :
    length? (cs.take n ++ other) = some n := by
  obtain ⟨l, ⟨hread, rest, rfl⟩, -, rfl⟩ := length?_eq_some_iff.mp h
  rw [List.take_left]
  have hat : l.At (l.chars ++ other) := ⟨hread, List.prefix_append _ _⟩
  refine length?_eq_some_iff.mpr ⟨l, hat, fun hsingle triple htriple hthree => ?_, rfl⟩
  -- Three quotes would be those of the empty literal, and a third behind it.
  obtain ⟨-, more, hmore⟩ := hat.empty hthree hsingle htriple
  have hno := hother.head (p := isQuote) (by decide) (by decide) l.quote
    (by simp [List.append_cancel_left hmore])
  rw [hread.quote] at hno
  cases hno

/-- A word that stands apart is not the letters of a literal. -/
theorem length?_of_word (hword : ∀ c ∈ word, isQuote c = false)
    (hother : Apart other) : length? (word ++ other) = none := by
  refine length?_eq_none_iff.mpr fun l hat => ?_
  obtain ⟨more, hmore⟩ := l.exists_opening
  obtain ⟨rest, hsplit⟩ := hat.front
  have hq := hat.isRead.quote
  obtain ⟨d, tail, rfl⟩ := hother.exists_cons
  have hquote : isQuote d = false := hother.head (by decide) (by decide) d rfl
  have hletter : isMarkLetter d = false := hother.head (by decide) (by decide) d rfl
  rw [hmore, List.append_assoc, List.cons_append] at hsplit
  rcases List.append_eq_append_iff.mp hsplit with ⟨gap, rfl, hgap⟩ | ⟨gap, hgap', hgap⟩
  · cases gap with
    | nil =>
      rw [(List.cons.inj hgap).1, hquote] at hq
      cases hq
    | cons e gap =>
      rw [(List.cons.inj hgap).1, hword e (by simp)] at hq
      cases hq
  · cases gap with
    | nil =>
      rw [(List.cons.inj hgap).1] at hquote
      rw [hquote] at hq
      cases hq
    | cons e gap =>
      rw [(List.cons.inj hgap).1, hat.isRead.letter e (by simp [hgap'])] at hletter
      cases hletter

end Quoted

/-! ### Where tokens begin -/

/-- The characters that begin what is no token, or the end of a line. -/
def breaks : List Char := [' ', '\t', '\x0c', '#', '\\', byteOrderMark, '\r', '\n']

theorem notMem_breaks (hp : breaks.all (!p ·) = true) (hc : p c = true) : c ∉ breaks := by
  intro hmem
  have hno := List.all_eq_true.mp hp c hmem
  rw [hc] at hno
  cases hno

theorem gapLength?_of_head (hc : c ∉ breaks) (cs : List Char) : gapLength? (c :: cs) = none := by
  simp only [breaks, List.mem_cons, List.not_mem_nil, or_false, not_or] at hc
  simp [gapLength?, isSpacing, hc]

theorem lineEndLength?_of_head (hc : c ∉ breaks) (cs : List Char) :
    lineEndLength? (c :: cs) = none := by
  unfold lineEndLength?
  split
  · rename_i heq
    obtain rfl := (List.cons.inj heq).1
    exact absurd (by decide) hc
  · rename_i heq
    obtain rfl := (List.cons.inj heq).1
    exact absurd (by decide) hc
  · rfl

/-- A token begins with a character of its own, and is read alone where it stands apart. -/
structure Token.StandsAlone (t : Token) : Prop where
  head : ∃ c rest, t.text.toList = c :: rest ∧ c ∉ breaks
  read {other : List Char} (hother : Apart other) :
    readToken? (t.text.toList ++ other) = some (t, t.text.toList.length)

/-- Where no line ends, four kinds of tokens are looked for in turn. -/
theorem readToken?_of_head (hc : c ∉ breaks) (cs : List Char) : readToken? (c :: cs) =
      ((Quoted.length? (c :: cs)).map fun n => (.string (String.ofList ((c :: cs).take n)), n)).or
      (((wordLength? (c :: cs)).map fun n => (.ofWord ((c :: cs).take n), n)).or
      (((Numeral.length? (c :: cs)).map fun n => (.number (String.ofList ((c :: cs).take n)), n)).or
      ((Symbol.read? (c :: cs)).map fun (s, n) => (.symbol s, n)))) := by
  simp only [readToken?, lineEndLength?_of_head hc, Option.map_none, Option.orElse_eq_orElse,
    Option.orElse_eq_or, Option.none_or]

/-! ### Words -/

theorem IsIdentifier.notQuoted (h : IsIdentifier word) : ∀ c ∈ word, Quoted.isQuote c = false := by
  have hplain {p : Char → Bool} (hdouble : p '"' = false) (hsingle : p '\'' = false) {c : Char}
      (hc : p c = true) : Quoted.isQuote c = false := by
    rw [Bool.eq_false_iff]
    intro hquote
    rcases (by simpa [Quoted.isQuote] using hquote : c = '"' ∨ c = '\'') with rfl | rfl
    · rw [hdouble] at hc
      cases hc
    · rw [hsingle] at hc
      cases hc
  cases word with
  | nil => exact h.elim
  | cons c word =>
    intro d hd
    rcases List.mem_cons.mp hd with rfl | hd
    · exact hplain (by decide) (by decide) h.1
    · exact hplain (by decide) (by decide) (h.2 d hd)

theorem wordLength?_apart {other : List Char} (hword : IsIdentifier word)
    (hother : Apart other) : wordLength? (word ++ other) = some word.length := by
  cases word with
  | nil => exact hword.elim
  | cons c word =>
    have hrun := runLength_of_head hword.2 (hother.head (by decide) (by decide))
    simp only [List.cons_append, wordLength?, hword.1, if_true, hrun, List.length_cons]
    rw [Nat.add_comm]

theorem Token.text_ofWord : (Token.ofWord word).text.toList = word := by
  unfold Token.ofWord
  split
  · rename_i k hk
    simp [Token.text, Keyword.ofText?_text hk]
  · simp [Token.text]

theorem Token.ofWord_standsAlone (hword : IsIdentifier word) : (Token.ofWord word).StandsAlone := by
  obtain ⟨c, rest, rfl⟩ : ∃ c rest, word = c :: rest := by
    cases word with
    | nil => exact hword.elim
    | cons c rest => exact ⟨c, rest, rfl⟩
  have hc : c ∉ breaks := notMem_breaks (by decide +kernel) hword.1
  refine ⟨⟨c, rest, text_ofWord, hc⟩, fun {other} hother => ?_⟩
  have hlength := wordLength?_apart hword hother
  have hquoted := Quoted.length?_of_word hword.notQuoted hother
  rw [text_ofWord, List.cons_append] at *
  rw [readToken?_of_head hc, hquoted, hlength, ← List.cons_append, Option.map_some,
    List.take_left]
  rfl

/-! ### Symbols -/

/-- Whether some characters begin like a symbol and like no other token. -/
def beginsSymbol : List Char → Bool
  | [] => false
  | c :: rest => c ∉ breaks && !Quoted.isMarkLetter c && !Quoted.isQuote c && !startsIdentifier c &&
      !c.isDigit && !(rest.head?.any Char.isDigit)

theorem Symbol.begins (s : Symbol) : beginsSymbol s.text.toList = true := by
  have hall : ∀ entry ∈ spellings, beginsSymbol entry.1 = true := by decide +kernel
  exact hall _ s.mem_spellings

theorem Symbol.exists_head (s : Symbol) : ∃ c rest, s.text.toList = c :: rest ∧ c ∉ breaks ∧
    Quoted.isMarkLetter c = false ∧ Quoted.isQuote c = false ∧ startsIdentifier c = false ∧
    c.isDigit = false ∧ rest.head?.any Char.isDigit = false := by
  have hbegins := s.begins
  cases htext : s.text.toList with
  | nil =>
    rw [htext] at hbegins
    cases hbegins
  | cons c rest =>
    rw [htext] at hbegins
    refine ⟨c, rest, rfl, ?_⟩
    simpa only [beginsSymbol, Bool.and_eq_true, Bool.not_eq_true', decide_eq_true_eq, and_assoc]
      using hbegins

/-- A symbol is found by its characters, of which there are one, two or three. -/
theorem Symbol.ofChars?_self (s : Symbol) :
    ofChars? s.text.toList = some s ∧ s.text.toList.length ≤ 3 ∧ ' ' ∉ s.text.toList := by
  have hall : ∀ entry ∈ spellings,
      ofChars? entry.1 = some entry.2 ∧ entry.1.length ≤ 3 ∧ ' ' ∉ entry.1 := by
    decide +kernel
  exact hall _ s.mem_spellings

/-- No symbol at a place is longer than the one that is read. -/
theorem Symbol.exists_length (s : Symbol) (rest : List Char) :
    ∃ found n, read? (s.text.toList ++ rest) = some (found, n) ∧ s.text.toList.length ≤ n := by
  obtain ⟨hself, hle, -⟩ := s.ofChars?_self
  have hmem : s.text.toList.length ∈ [3, 2, 1] := by
    obtain ⟨c, more, htext, -⟩ := s.exists_head
    simp only [htext, List.length_cons, List.mem_cons, List.not_mem_nil, or_false] at hle ⊢
    omega
  cases hread : read? (s.text.toList ++ rest) with
  | none =>
    have hnone := List.findSome?_eq_none_iff.mp hread _ hmem
    simp [hself] at hnone
  | some entry =>
    obtain ⟨found, n⟩ := entry
    refine ⟨found, n, rfl, ?_⟩
    -- The lengths that are tried before the one that is found are the greater ones.
    obtain ⟨before, m, after, hlengths, hm, hbefore⟩ := List.findSome?_eq_some_iff.mp hread
    obtain ⟨_, -, hpair⟩ := Option.map_eq_some_iff.mp hm
    obtain rfl : m = n := (Prod.mk.inj hpair).2
    have hdescending : [3, 2, 1].Pairwise (· > ·) := by decide
    rw [hlengths] at hmem hdescending
    rcases List.mem_append.mp hmem with hearlier | hlater
    · have hnone := hbefore _ hearlier
      simp [hself] at hnone
    · rcases List.mem_cons.mp hlater with heq | hlater
      · exact Nat.le_of_eq heq
      · exact Nat.le_of_lt
          ((List.pairwise_cons.mp (List.pairwise_append.mp hdescending).2.1).1 _ hlater)

theorem Symbol.read?_apart (s : Symbol) {other : List Char} (hother : Apart other) :
    read? (s.text.toList ++ other) = some (s, s.text.toList.length) := by
  obtain ⟨found, n, hread, hle⟩ := s.exists_length other
  have htext := (read?_text hread).2
  rcases Nat.eq_or_lt_of_le hle with rfl | hlt
  · rw [List.take_left] at htext
    have hself := s.ofChars?_self.1
    rw [← htext, found.ofChars?_self.1] at hself
    rw [hread, Option.some.inj hself]
  · -- A longer symbol would hold what follows.
    exfalso
    obtain ⟨c, rest, rfl, hc⟩ := hother
    obtain ⟨k, rfl⟩ : ∃ k, n = s.text.toList.length + (k + 1) :=
      ⟨n - s.text.toList.length - 1, by omega⟩
    rw [List.take_length_add_append, List.take_succ_cons] at htext
    have hmem : c ∈ found.text.toList := by
      rw [htext]
      simp
    rcases hc with rfl | rfl
    · exact found.ofChars?_self.2.2 hmem
    · exact found.oneLine.2 hmem

/-- Where no numeral stands, a symbol is read for one. -/
theorem Symbol.readToken?_eq (s : Symbol) {found : Symbol} {rest : List Char}
    (hnumeral : Numeral.length? (s.text.toList ++ rest) = none)
    (hread : read? (s.text.toList ++ rest) = some (found, n)) :
    readToken? (s.text.toList ++ rest) = some (.symbol found, n) := by
  obtain ⟨c, more, htext, hc, hletter, hquote, hword, -⟩ := s.exists_head
  rw [htext, List.cons_append] at hnumeral hread ⊢
  have hnone : wordLength? (c :: (more ++ rest)) = none := by simp [wordLength?, hword]
  rw [readToken?_of_head hc, Quoted.length?_of_head hletter hquote, hnone, hnumeral, hread]
  rfl

theorem Symbol.standsAlone (s : Symbol) : (Token.symbol s).StandsAlone := by
  obtain ⟨c, rest, htext, hc, -, -, -, hdigit, hnext⟩ := s.exists_head
  refine ⟨⟨c, rest, htext, hc⟩, fun {other} hother => ?_⟩
  have hpoint : (rest ++ other).head?.any Char.isDigit = false := by
    cases rest with
    | nil =>
      obtain ⟨d, more, rfl⟩ := hother.exists_cons
      have hd : d.isDigit = false := hother.head (by decide) (by decide) d rfl
      simpa using hd
    | cons d rest => simpa using hnext
  refine s.readToken?_eq ?_ (s.read?_apart hother)
  rw [htext]
  exact Numeral.length?_of_head hdigit hpoint

/-! ### Literals -/

theorem string_standsAlone (h : Quoted.length? cs = some n) :
    (Token.string (String.ofList (cs.take n))).StandsAlone := by
  have htext : (Token.string (String.ofList (cs.take n))).text.toList = cs.take n := by
    simp [Token.text]
  obtain ⟨c, rest, hcons, hc⟩ : ∃ c rest, cs.take n = c :: rest ∧ c ∉ breaks := by
    obtain ⟨l, hread, -, htake, -⟩ := Quoted.exists_literal h
    obtain ⟨c, rest, hchars, hletter | hquote⟩ := l.head hread
    · exact ⟨c, rest, htake.trans hchars, notMem_breaks (by decide) hletter⟩
    · exact ⟨c, rest, htake.trans hchars, notMem_breaks (by decide) hquote⟩
  refine ⟨⟨c, rest, htext.trans hcons, hc⟩, fun {other} hother => ?_⟩
  have hread := Quoted.length?_apart hother h
  have hlength : (cs.take n).length = n := by
    rw [List.length_take]
    have := Quoted.length?_le h
    omega
  have htake : (cs.take n ++ other).take n = cs.take n := by
    rw [List.take_append_of_le_length hlength.ge, List.take_take, Nat.min_self]
  rw [htext, hlength]
  rw [hcons, List.cons_append] at hread htake ⊢
  rw [readToken?_of_head hc, hread, Option.map_some, htake]
  rfl

/-- The characters a numeral begins with. -/
def numeralHeads : List Char := ['.', '0', '1', '2', '3', '4', '5', '6', '7', '8', '9']

theorem mem_numeralHeads (h : c.isDigit = true) : c ∈ numeralHeads := by
  have hbounds : 48 ≤ c.toNat ∧ c.toNat ≤ 57 := by
    simpa [Char.isDigit, UInt32.le_iff_toNat_le] using h
  have hall : ∀ n < 58, 48 ≤ n → Char.ofNat n ∈ numeralHeads := by decide
  rw [← Char.ofNat_toNat c]
  exact hall c.toNat (by omega) hbounds.1

theorem of_numeralHeads (hp : numeralHeads.all (!p ·) = true)
    (hc : c ∈ numeralHeads) : p c = false := by
  simpa using List.all_eq_true.mp hp c hc

theorem notMem_breaks_of_numeralHeads (hc : c ∈ numeralHeads) : c ∉ breaks := by
  intro hbreak
  have hno : breaks.contains c = false := of_numeralHeads (by decide) hc
  rw [List.contains_iff_mem.mpr hbreak] at hno
  cases hno

theorem Numeral.length?_head (h : length? cs = some n) :
    ∃ c rest, cs = c :: rest ∧ c ∈ numeralHeads := by
  rcases length?_cases h with hmarked | ⟨hbegins, -⟩
  · obtain ⟨mark, isDigit, rest, rfl, -⟩ := markedLength?_eq_some_iff.mp hmarked
    exact ⟨'0', _, rfl, by decide⟩
  · obtain ⟨c, rest, hc, rfl | rfl⟩ := beginsDecimal_cases hbegins
    · exact ⟨c, rest, rfl, mem_numeralHeads hc⟩
    · exact ⟨'.', _, rfl, by decide⟩

/-- A numeral begins like no token of the kinds that are looked for before it. -/
theorem readToken?_of_numeral (h : Numeral.length? cs = some n) :
    readToken? cs = some (.number (String.ofList (cs.take n)), n) := by
  obtain ⟨c, rest, rfl, hhead⟩ := Numeral.length?_head h
  have hword : startsIdentifier c = false := of_numeralHeads (by decide) hhead
  have hquoted : Quoted.length? (c :: rest) = none :=
    Quoted.length?_of_head (of_numeralHeads (by decide) hhead) (of_numeralHeads (by decide) hhead) _
  have hnone : wordLength? (c :: rest) = none := by simp [wordLength?, hword]
  rw [readToken?_of_head (notMem_breaks_of_numeralHeads hhead), hquoted, hnone, h]
  rfl

theorem number_standsAlone (h : Numeral.length? cs = some n) :
    (Token.number (String.ofList (cs.take n))).StandsAlone := by
  have htext : (Token.number (String.ofList (cs.take n))).text.toList = cs.take n := by
    simp [Token.text]
  have hlength : (cs.take n).length = n := by
    rw [List.length_take]
    have := Numeral.length?_confines.le h
    omega
  obtain ⟨c, rest, rfl, hhead⟩ := Numeral.length?_head h
  obtain ⟨k, rfl⟩ : ∃ k, n = k + 1 := ⟨n - 1, by have := Numeral.length?_pos h; omega⟩
  rw [List.take_succ_cons] at htext hlength ⊢
  refine ⟨⟨c, _, htext, notMem_breaks_of_numeralHeads hhead⟩, fun {other} hother => ?_⟩
  have hread : Numeral.length? (c :: (rest.take k ++ other)) = some (k + 1) := by
    rw [← List.take_append_drop (k + 1) (c :: rest), List.take_succ_cons, ← hlength] at h
    have hstop := hother.head (p := Numeral.isPart) (by decide) (by decide)
    rw [← List.cons_append, Numeral.length?_confines.apart h hstop, hlength]
  have htake : (c :: (rest.take k ++ other)).take (k + 1) = c :: rest.take k := by
    rw [← List.cons_append, List.take_append_of_le_length hlength.ge, ← hlength, List.take_length]
  rw [htext, hlength, List.cons_append, readToken?_of_numeral hread, htake]

/-! ### All tokens -/

/-- **A token that was read anywhere stands alone wherever a space or a newline follows**,
but for the newline itself. -/
theorem readToken?_standsAlone {t : Token}
    (h : readToken? cs = some (t, n)) (hother : t ≠ .newline) : t.StandsAlone := by
  cases ReadAs.of_readToken? h with
  | lineEnd => exact absurd rfl hother
  | literal hquoted => exact string_standsAlone hquoted
  | word hword => exact Token.ofWord_standsAlone (wordLength?_isIdentifier hword).2
  | numeral hnumeral => exact number_standsAlone hnumeral
  | symbol => exact Symbol.standsAlone _

end Scrutiny
