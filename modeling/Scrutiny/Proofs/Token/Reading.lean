/-
What stands at the front of a text.

The scanner decides at each place what stands there and how long it is.  This file
says what the decision means: a token is written by the characters it takes
(`Token.WrittenAs`), and a gap is one of the four things that may be passed over
(`Gap`).  Both take at least one character, so the scan never stands still.

A comment reaches to the end of its line.  Where a text can be scanned at all that
is a real line ending or the end of the text, because a carriage return with no
newline after it cannot be read as anything (`readPiece_bare_return`).
-/
import Scrutiny.Proofs.Token.Literals

namespace Scrutiny

variable {cs : List Char} {n : Nat}

/-- The two ways to end a line. -/
def IsLineEnd (chars : List Char) : Prop := chars = ['\n'] ∨ chars = ['\r', '\n']

/-- Whether some characters are an identifier. -/
def IsIdentifier : List Char → Prop
  | [] => False
  | c :: cs => startsIdentifier c = true ∧ ∀ d ∈ cs, continuesIdentifier d = true

/-- What continues no identifier is not in one. -/
theorem IsIdentifier.not_mem {chars : List Char} (h : IsIdentifier chars) {c : Char}
    (hstarts : startsIdentifier c = false) (hcontinues : continuesIdentifier c = false) :
    c ∉ chars := by
  cases chars with
  | nil => simp
  | cons first rest =>
    intro hmem
    rcases List.mem_cons.mp hmem with rfl | hmem
    · exact absurd h.1 (by simp [hstarts])
    · exact absurd (h.2 c hmem) (by simp [hcontinues])

/-- Whether a token is written so in a text.  A newline has two spellings, and the
marks of the layout have none. -/
def Token.WrittenAs : Token → List Char → Prop
  | .newline, chars => IsLineEnd chars
  | .name text, chars => chars = text.toList ∧ IsIdentifier chars
  | .indent, _ => False
  | .dedent, _ => False
  | token, chars => chars = token.text.toList

/-- What may stand between tokens, and what may follow it there. -/
inductive Gap : List Char → List Char → Prop
  | spacing {run after : List Char} (hne : run ≠ []) (hrun : ∀ c ∈ run, isSpacing c = true) :
      Gap run after
  /-- A comment takes the rest of its line. -/
  | comment {body after : List Char} (hbody : ∀ c ∈ body, c ≠ '\r' ∧ c ≠ '\n')
      (hafter : after = [] ∨ ∃ ending rest, IsLineEnd ending ∧ after = ending ++ rest) :
      Gap ('#' :: body) after
  /-- A line ending behind a backslash ends no line. -/
  | joint {ending after : List Char} (hending : IsLineEnd ending) : Gap ('\\' :: ending) after
  | orderMark {after : List Char} : Gap [byteOrderMark] after

/-! ### Each reading takes something -/

theorem lineEndLength?_isLineEnd (h : lineEndLength? cs = some n) :
    0 < n ∧ IsLineEnd (cs.take n) := by
  unfold lineEndLength? at h
  split at h
  · cases h
    exact ⟨by omega, Or.inl rfl⟩
  · cases h
    exact ⟨by omega, Or.inr rfl⟩
  · simp at h

theorem wordLength?_isIdentifier (h : wordLength? cs = some n) :
    0 < n ∧ IsIdentifier (cs.take n) := by
  unfold wordLength? at h
  split at h
  · rename_i c rest
    split at h
    · rename_i hstart
      cases h
      rw [Nat.add_comm, List.take_succ_cons, take_runLength]
      exact ⟨by omega, hstart, fun d hd => List.all_eq_true.mp List.all_takeWhile d hd⟩
    · simp at h
  · simp at h

/-! ### A token is written by what it takes -/

/-- The table has every symbol. -/
theorem Symbol.mem_spellings (s : Symbol) : (s.text.toList, s) ∈ spellings := by
  refine List.mem_map_of_mem ?_
  cases s with
  | opening b | closing b => cases b <;> decide
  | augmented op => cases op <;> decide
  | _ => decide

theorem Symbol.ofChars?_text {s : Symbol} (h : ofChars? cs = some s) : s.text.toList = cs := by
  unfold ofChars? at h
  have hmem : (cs, s) ∈ spellings := by
    obtain ⟨before, after, hsplit, -⟩ := List.lookup_eq_some_iff.mp h
    rw [hsplit]
    simp
  simp only [spellings, List.mem_map, Prod.mk.injEq] at hmem
  obtain ⟨s', -, htext, rfl⟩ := hmem
  exact htext

theorem Symbol.read?_text {s : Symbol} (h : read? cs = some (s, n)) :
    0 < n ∧ s.text.toList = cs.take n := by
  obtain ⟨m, hm, hread⟩ := List.exists_of_findSome?_eq_some h
  obtain ⟨s', hchars, hpair⟩ := Option.map_eq_some_iff.mp hread
  simp only [Prod.mk.injEq] at hpair
  obtain ⟨rfl, rfl⟩ := hpair
  refine ⟨?_, ofChars?_text hchars⟩
  simp only [List.mem_cons, List.not_mem_nil, or_false] at hm
  omega

theorem Keyword.ofText?_text {word : String} {k : Keyword} (h : ofText? word = some k) :
    k.text = word := by
  simpa using List.find?_some h

theorem Token.ofWord_writtenAs {word : List Char} (h : IsIdentifier word) :
    (Token.ofWord word).WrittenAs word := by
  unfold Token.ofWord
  split
  · rename_i k hk
    have htext := Keyword.ofText?_text hk
    simp [WrittenAs, Token.text, htext]
  · simp [WrittenAs, h]

/-- Which of its readers a token at the front comes from. -/
inductive ReadAs (cs : List Char) : Token → Nat → Prop
  | lineEnd {n : Nat} (h : lineEndLength? cs = some n) : ReadAs cs .newline n
  | literal {n : Nat} (h : Quoted.length? cs = some n) :
      ReadAs cs (.string (String.ofList (cs.take n))) n
  | word {n : Nat} (h : wordLength? cs = some n) : ReadAs cs (.ofWord (cs.take n)) n
  | numeral {n : Nat} (h : Numeral.length? cs = some n) :
      ReadAs cs (.number (String.ofList (cs.take n))) n
  | symbol {s : Symbol} {n : Nat} (h : Symbol.read? cs = some (s, n)) : ReadAs cs (.symbol s) n

theorem ReadAs.of_readToken? {t : Token} (h : readToken? cs = some (t, n)) : ReadAs cs t n := by
  simp only [readToken?, Option.orElse_eq_orElse, Option.orElse_eq_or, Option.or_eq_some_iff,
    Option.map_eq_some_iff, Prod.mk.injEq] at h
  rcases h with ⟨m, h, rfl, rfl⟩ | ⟨-, ⟨m, h, rfl, rfl⟩ | ⟨-, ⟨m, h, rfl, rfl⟩ |
    ⟨-, ⟨m, h, rfl, rfl⟩ | ⟨-, ⟨s, m⟩, h, rfl, rfl⟩⟩⟩⟩
  · exact .lineEnd h
  · exact .literal h
  · exact .word h
  · exact .numeral h
  · exact .symbol h

/-- The token read at the front is written by the characters it takes. -/
theorem readToken?_writtenAs {t : Token}
    (h : readToken? cs = some (t, n)) : 0 < n ∧ t.WrittenAs (cs.take n) := by
  cases ReadAs.of_readToken? h with
  | lineEnd hend => exact lineEndLength?_isLineEnd hend
  | literal hquoted => exact ⟨Quoted.length?_pos hquoted, by simp [Token.WrittenAs, Token.text]⟩
  | word hword =>
    obtain ⟨hpos, hidentifier⟩ := wordLength?_isIdentifier hword
    exact ⟨hpos, Token.ofWord_writtenAs hidentifier⟩
  | numeral hnumeral =>
    exact ⟨Numeral.length?_pos hnumeral, by simp [Token.WrittenAs, Token.text]⟩
  | symbol hsymbol =>
    obtain ⟨hpos, htext⟩ := Symbol.read?_text hsymbol
    exact ⟨hpos, htext.symm⟩

/-! ### Gaps -/

/-- What a gap takes.  Of what follows a comment only the first character is known. -/
theorem gapLength?_cases (h : gapLength? cs = some n) : 0 < n ∧ (Gap (cs.take n) (cs.drop n) ∨
      ∃ body, cs.take n = '#' :: body ∧ (∀ c ∈ body, c ≠ '\r' ∧ c ≠ '\n') ∧
        ∀ c ∈ (cs.drop n).head?, c = '\r' ∨ c = '\n') := by
  unfold gapLength? at h
  split at h
  · simp at h
  rename_i c cs
  split at h
  · rename_i hc
    simp only [Option.some.injEq] at h
    subst h
    refine ⟨by omega, Or.inl ?_⟩
    rw [Nat.add_comm, List.take_succ_cons, take_runLength]
    refine Gap.spacing (by simp) ?_
    intro d hd
    rcases List.mem_cons.mp hd with rfl | hd
    · exact hc
    · exact (List.all_eq_true.mp List.all_takeWhile) d hd
  split at h
  · rename_i hc
    have hc : c = '#' := by simpa using hc
    subst hc
    simp only [Option.some.injEq] at h
    subst h
    refine ⟨by omega, Or.inr ⟨cs.takeWhile fun d => d != '\r' && d != '\n', ?_, ?_, ?_⟩⟩
    · rw [Nat.add_comm, List.take_succ_cons, take_runLength]
    · intro d hd
      simpa using (List.all_eq_true.mp List.all_takeWhile) d hd
    · intro d hd
      rw [Nat.add_comm, List.drop_succ_cons, drop_runLength] at hd
      have hstop := List.head?_dropWhile_not (fun d => d != '\r' && d != '\n') cs
      rw [Option.mem_def.mp hd] at hstop
      by_cases hr : d = '\r'
      · exact Or.inl hr
      · exact Or.inr (by simpa [hr] using hstop)
  split at h
  · rename_i hc
    have hc : c = '\\' := by simpa using hc
    subst hc
    obtain ⟨m, hm, rfl⟩ := Option.map_eq_some_iff.mp h
    refine ⟨by omega, Or.inl ?_⟩
    rw [List.take_succ_cons]
    exact Gap.joint (lineEndLength?_isLineEnd hm).2
  split at h
  · rename_i hc
    have hc : c = byteOrderMark := by simpa using hc
    subst hc
    simp only [Option.some.injEq] at h
    subst h
    exact ⟨by omega, Or.inl Gap.orderMark⟩
  · simp at h

/-! ### A carriage return alone is nothing -/

/-- No symbol is written with a character that ends lines. -/
theorem Symbol.oneLine (s : Symbol) : '\r' ∉ s.text.toList ∧ '\n' ∉ s.text.toList := by
  have hall : ∀ entry ∈ spellings, '\r' ∉ entry.1 ∧ '\n' ∉ entry.1 := by decide +kernel
  exact hall _ s.mem_spellings

theorem Symbol.read?_return (rest : List Char) : read? ('\r' :: rest) = none := by
  cases hread : read? ('\r' :: rest) with
  | none => rfl
  | some found =>
    obtain ⟨s, n⟩ := found
    obtain ⟨hpos, htext⟩ := read?_text hread
    obtain ⟨m, rfl⟩ : ∃ m, n = m + 1 := ⟨n - 1, by omega⟩
    exact absurd (by rw [htext]; exact List.mem_cons_self) s.oneLine.1

/-- Nothing can be read at a carriage return that no newline follows. -/
theorem readPiece_bare_return {rest : List Char} (hrest : rest.head? ≠ some '\n') :
    (readPiece ('\r' :: rest)).1 = .fault := by
  have hgap : gapLength? ('\r' :: rest) = none := rfl
  have hend : lineEndLength? ('\r' :: rest) = none := by
    unfold lineEndLength?
    split
    · rename_i heq
      simp at heq
    · rename_i heq
      simp only [List.cons.injEq, true_and] at heq
      simp [heq] at hrest
    · rfl
  have hquoted : Quoted.length? ('\r' :: rest) = none := by
    cases rest <;> rfl
  have hword : wordLength? ('\r' :: rest) = none := by
    have hstart : startsIdentifier '\r' = false := by decide
    simp [wordLength?, hstart]
  have hnumeral : Numeral.length? ('\r' :: rest) = none := by
    cases rest <;> rfl
  have htoken : readToken? ('\r' :: rest) = none := by
    simp [readToken?, hend, hquoted, hword, hnumeral, Symbol.read?_return]
  simp [readPiece, hgap, htoken]

end Scrutiny
