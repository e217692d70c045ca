/-
Irregular characters are out of the parser's sight, and are reported.

A character is irregular where it stands (`Kind.Is`).  None of the readings of the scanner
takes one but that of a string literal, and of the gaps only a comment and a byte order mark
have one.  So in a text that has tokens each is in a string literal or in a comment, or is a
byte order mark between tokens (`Occurrence.hidden`).

The check goes through all of them (`mem_occurrences`) and keeps the first of each kind
(`exists_firsts`).
-/
import Mathlib.Data.Set.List
import Scrutiny.Check.Scan.Characters
import Scrutiny.Proofs.Check.Names
import Scrutiny.Proofs.Token.Boundaries
import Scrutiny.Proofs.Token.Delimiters

namespace Scrutiny.Characters

/-- The kinds of irregular characters. -/
inductive Kind where
  | control | replacement | innerMark | bareReturn
deriving DecidableEq

/-- Whether a character is of the kind, between what stands before it and after it. -/
def Kind.Is (before : List Char) (c : Char) (after : List Char) : Kind → Prop
  | control => isControl c = true ∧ c ∉ ['\t', '\n', '\x0c', '\r']
  | replacement => c = '\ufffd'
  | innerMark => c = '\ufeff' ∧ before ≠ []
  | bareReturn => c = '\r' ∧ after.head? ≠ some '\n'

/-- An irregular character of a text, where it stands. -/
structure Occurrence (cs : List Char) where
  kind : Kind
  before : List Char
  char : Char
  after : List Char
  stands : cs = before ++ char :: after
  is : kind.Is before char after

variable {cs before after : List Char} {c : Char}

namespace Occurrence

/-- The bytes before it. -/
def offset (o : Occurrence cs) : Nat := byteLength o.before

/-- The bytes before what follows it. -/
def stop (o : Occurrence cs) : Nat := o.offset + o.char.utf8Size

/-- The number of its line. -/
def line (o : Occurrence cs) : Nat := o.before.count '\n' + 1

/-- It is part of a string literal. -/
def InString (o : Occurrence cs) (tokens : List Lexeme) : Prop :=
  ∃ lexeme ∈ tokens, (∃ text, lexeme.token = .string text) ∧
    lexeme.span.start ≤ o.offset ∧ o.stop ≤ lexeme.span.stop

/-- It is behind a `#` on the same line, and no token reaches into what stands from there on. -/
def InComment (o : Occurrence cs) (tokens : List Lexeme) : Prop :=
  ∃ front body, o.before = front ++ '#' :: body ∧ (∀ d ∈ body ++ [o.char], d ≠ '\r' ∧ d ≠ '\n') ∧
    ∀ lexeme ∈ tokens, lexeme.span.stop ≤ byteLength front ∨ o.stop ≤ lexeme.span.start

/-- No token reaches into it. -/
def BetweenTokens (o : Occurrence cs) (tokens : List Lexeme) : Prop :=
  ∀ lexeme ∈ tokens, lexeme.span.stop ≤ o.offset ∨ o.stop ≤ lexeme.span.start

end Occurrence

/-! ### Characters that no reading takes -/

/-- Whether a character can be irregular. -/
def isSuspect (c : Char) : Bool :=
  (isControl c && c ∉ ['\t', '\n', '\x0c']) || c == '\ufffd' || c == '\ufeff'

theorem Kind.Is.isSuspect {kind : Kind} (h : kind.Is before c after) : isSuspect c = true := by
  cases kind with
  | control =>
    obtain ⟨hcontrol, hother⟩ := h
    simp_all [Characters.isSuspect]
  | replacement =>
    cases h
    decide
  | innerMark =>
    cases h.1
    decide
  | bareReturn =>
    cases h.1
    decide

theorem toNat_of_isPart (h : Numeral.isPart c = true) : 0x20 < c.toNat ∧ c.toNat < 0x7F := by
  have hbetween {low high : Char} (hc : low ≤ c ∧ c ≤ high) (hlow : 0x20 < low.toNat)
      (hhigh : high.toNat < 0x7F) : 0x20 < c.toNat ∧ c.toNat < 0x7F :=
    ⟨Nat.lt_of_lt_of_le hlow (UInt32.le_iff_toNat_le.mp hc.1),
      Nat.lt_of_le_of_lt (UInt32.le_iff_toNat_le.mp hc.2) hhigh⟩
  rcases Numeral.isPart_iff.mp h with hupper | hlower | hdigit | hother
  · exact hbetween hupper (by decide) (by decide)
  · exact hbetween hlower (by decide) (by decide)
  · exact hbetween hdigit (by decide) (by decide)
  · simp only [List.mem_cons, List.not_mem_nil, or_false] at hother
    rcases hother with rfl | rfl | rfl | rfl <;> decide

/-- Suspect characters come before all that the tables of identifiers have, but for two. -/
theorem isSuspect_cases (h : isSuspect c = true) :
    c.toNat < 0xA0 ∧ Numeral.isPart c = false ∨ c = '\ufffd' ∨ c = '\ufeff' := by
  simp only [isSuspect, Bool.or_eq_true, Bool.and_eq_true, beq_iff_eq] at h
  rcases h with (⟨hcontrol, -⟩ | hc) | hc
  · simp only [isControl, Bool.or_eq_true, Bool.and_eq_true, decide_eq_true_eq] at hcontrol
    refine Or.inl ⟨by omega, Bool.eq_false_iff.mpr fun hpart => ?_⟩
    have := toNat_of_isPart hpart
    omega
  · exact Or.inr (Or.inl hc)
  · exact Or.inr (Or.inr hc)

theorem isPart_of_isSuspect (h : isSuspect c = true) : Numeral.isPart c = false := by
  rcases isSuspect_cases h with ⟨-, hpart⟩ | rfl | rfl
  · exact hpart
  · decide
  · decide

theorem holds_eq_false {table : CodeRanges} (htable : ∀ first ∈ table.head?, 0xA0 ≤ first)
    (hc : c.toNat < 0xA0) : table.holds c = false := by
  cases table with
  | nil => rfl
  | cons first table =>
    exact if_pos (Nat.lt_of_lt_of_le hc (htable first rfl))

/-- No identifier has a suspect character. -/
theorem identifier_of_isSuspect (h : isSuspect c = true) :
    startsIdentifier c = false ∧ continuesIdentifier c = false := by
  rcases isSuspect_cases h with ⟨hsmall, hpart⟩ | rfl | rfl
  · have hstart : xidStartTable.holds c = false := holds_eq_false (by decide +kernel) hsmall
    have hmore : xidContinueTable.holds c = false := holds_eq_false (by decide +kernel) hsmall
    simp only [Numeral.isPart, Char.isAlphanum, Bool.or_eq_false_iff] at hpart
    obtain ⟨⟨⟨⟨⟨halpha, hdigit⟩, hunderscore⟩, -⟩, -⟩, -⟩ := hpart
    simp [startsIdentifier, continuesIdentifier, Char.isAlphanum, halpha, hdigit, hunderscore,
      hstart, hmore]
  · decide +kernel
  · decide +kernel

theorem symbol_regular (s : Symbol) : ∀ d ∈ s.text.toList, isSuspect d = false := by
  have hall : Symbol.spellings.all (·.1.all (!isSuspect ·)) = true := by decide +kernel
  simpa using List.all_eq_true.mp hall _ s.mem_spellings

theorem ofWord_text (word : List Char) :
    (Token.ofWord word).isMark = false ∧ (Token.ofWord word).text.toList = word := by
  unfold Token.ofWord
  split
  · rename_i k hk
    simp [Token.isMark, Token.text, Keyword.ofText?_text hk]
  · simp [Token.isMark, Token.text]

/-- Of the tokens only line ends and string literals may have suspect characters. -/
theorem readToken?_regular {t : Token} {n : Nat} (h : readToken? cs = some (t, n)) :
    t = .newline ∨ (∃ text, t = .string text) ∨
      t.isMark = false ∧ ∀ d ∈ t.text.toList, isSuspect d = false := by
  cases ReadAs.of_readToken? h with
  | lineEnd => exact Or.inl rfl
  | literal => exact Or.inr (Or.inl ⟨_, rfl⟩)
  | word hword =>
    obtain ⟨hplain, htext⟩ := ofWord_text (cs.take n)
    refine Or.inr (Or.inr ⟨hplain, fun d hd => Bool.eq_false_iff.mpr fun hsuspect => ?_⟩)
    obtain ⟨hstart, hmore⟩ := identifier_of_isSuspect hsuspect
    exact (wordLength?_isIdentifier hword).2.not_mem hstart hmore (htext ▸ hd)
  | numeral hnumeral =>
    refine Or.inr (Or.inr ⟨rfl, fun d hd => Bool.eq_false_iff.mpr fun hsuspect => ?_⟩)
    have hpart := Numeral.length?_confines.mem_take hnumeral (by simpa [Token.text] using hd)
    simp [isPart_of_isSuspect hsuspect] at hpart
  | symbol => exact Or.inr (Or.inr ⟨rfl, symbol_regular _⟩)

theorem isSuspect_of_isSpacing (h : isSpacing c = true) : isSuspect c = false := by
  simp only [isSpacing, Bool.or_eq_true, beq_iff_eq] at h
  rcases h with (rfl | rfl) | rfl <;> decide

theorem Kind.Is.eq_innerMark {kind : Kind} (h : kind.Is before byteOrderMark after) :
    kind = .innerMark := by
  cases kind with
  | innerMark => rfl
  | control => exact absurd h.1 (by decide)
  | replacement => simp [Kind.Is, byteOrderMark] at h
  | bareReturn => exact absurd h.1 (by decide)

/-- The characters of a line end are regular where they stand. -/
theorem lineEnd_regular {kind : Kind} {ending left right : List Char} (h : IsLineEnd ending)
    (hcut : ending = left ++ c :: right) : ¬ kind.Is before c (right ++ after) := by
  intro his
  have hchar : c = '\n' ∨ c = '\r' ∧ right = ['\n'] := by
    rcases h with rfl | rfl
    · have hmem : c ∈ ['\n'] := by simp [hcut]
      exact Or.inl (List.mem_singleton.mp hmem)
    · rcases left with _ | ⟨d, _ | ⟨e, left⟩⟩
      · obtain ⟨hc, hright⟩ := List.cons.inj hcut
        exact Or.inr ⟨hc.symm, hright.symm⟩
      · exact Or.inl (List.cons.inj (List.cons.inj hcut).2).1.symm
      · simp at hcut
  rcases hchar with rfl | ⟨rfl, rfl⟩
  · exact absurd his.isSuspect (by decide)
  · cases kind with
    | control => simp [Kind.Is] at his
    | replacement => simp [Kind.Is] at his
    | innerMark => exact absurd his.1 (by decide)
    | bareReturn => exact his.2 rfl

/-! ### Where irregular characters are -/

namespace Occurrence

variable {front part back : List Char} {tokens : List Lexeme}

theorem offset_lt (o : Occurrence cs) : o.offset < byteLength cs := by
  have hsize := congrArg byteLength o.stands
  have hpos := o.char.utf8Size_pos
  rw [byteLength_append, byteLength_cons] at hsize
  rw [offset]
  omega

/-- It is a character of any part of the text that it begins in. -/
theorem within (o : Occurrence cs) (h : cs = front ++ part ++ back)
    (hlow : byteLength front ≤ o.offset) (hhigh : o.offset < byteLength front + byteLength part) :
    ∃ left right, o.before = front ++ left ∧ part = left ++ o.char :: right ∧
      o.after = right ++ back ∧ o.stop ≤ byteLength front + byteLength part := by
  obtain ⟨left, right, hbefore, hpart, hafter⟩ :=
    exists_cut_of_byteLength (h.symm.trans o.stands) hlow hhigh
  refine ⟨left, right, hbefore, hpart, hafter, ?_⟩
  rw [stop, offset, hbefore, hpart, byteLength_append, byteLength_append, byteLength_cons]
  omega

/-- The tokens that are scanned have it only in a string literal. -/
theorem in_string (o : Occurrence cs) {lexemes : List Lexeme} (hscan : scan cs = .ok lexemes)
    {lexeme : Lexeme} (hlexeme : lexeme ∈ lexemes) (hlow : lexeme.span.start ≤ o.offset)
    (hhigh : o.offset < lexeme.span.stop) :
    (∃ text, lexeme.token = .string text) ∧ o.stop ≤ lexeme.span.stop := by
  obtain ⟨front, part, back, hcs, hwritten, hspan⟩ := (scan_scanned hscan).stands lexeme hlexeme
  rw [hspan] at hlow hhigh ⊢
  obtain ⟨left, right, -, hpart, hafter, hstop⟩ := o.within hcs hlow hhigh
  refine ⟨?_, hstop⟩
  rw [(scan_pieces hscan).2] at hlexeme
  obtain ⟨ahead, n, hread⟩ := readToken?_of_mem_lexemesFrom hlexeme
  rcases readToken?_regular hread with hnewline | hstring | ⟨hplain, hregular⟩
  · rw [hnewline] at hwritten
    exact absurd (hafter ▸ o.is) (lineEnd_regular hwritten hpart)
  · exact hstring
  · have hchar : o.char ∈ lexeme.token.text.toList := by
      rw [← hwritten.eq_text hplain, hpart]
      simp
    exact absurd o.is.isSuspect (by simp [hregular _ hchar])

/-- What may stand between tokens has it only in a comment, or is a byte order mark. -/
theorem in_gap (o : Occurrence cs) (hcs : cs = front ++ part ++ back) (hgap : Gap part back)
    (hlow : byteLength front ≤ o.offset) (hhigh : o.offset < byteLength front + byteLength part)
    (hfree : ∀ lexeme ∈ tokens, lexeme.span.stop ≤ byteLength front ∨
      byteLength front + byteLength part ≤ lexeme.span.start) :
    o.InComment tokens ∨ o.kind = .innerMark ∧ o.BetweenTokens tokens := by
  obtain ⟨left, right, hbefore, hpart, hafter, hstop⟩ := o.within hcs hlow hhigh
  have hsuspect := o.is.isSuspect
  have hapart : ∀ lexeme ∈ tokens, lexeme.span.stop ≤ byteLength front ∨
      o.stop ≤ lexeme.span.start :=
    fun lexeme hlexeme => (hfree lexeme hlexeme).imp_right hstop.trans
  cases hgap with
  | spacing _ hrun =>
    have hspacing := hrun o.char (by simp [hpart])
    simp [isSuspect_of_isSpacing hspacing] at hsuspect
  | @comment body _ hbody _ =>
    cases left with
    | nil =>
      obtain ⟨hchar, -⟩ := List.cons.inj hpart
      rw [← hchar] at hsuspect
      exact absurd hsuspect (by decide)
    | cons d left =>
      obtain ⟨rfl, hbodyEq⟩ := List.cons.inj hpart
      refine Or.inl ⟨front, left, hbefore, fun d hd => hbody d ?_, hapart⟩
      rw [hbodyEq, List.append_eq, List.append_cons]
      exact List.mem_append_left _ hd
  | joint hending =>
    cases left with
    | nil =>
      obtain ⟨hchar, -⟩ := List.cons.inj hpart
      rw [← hchar] at hsuspect
      exact absurd hsuspect (by decide)
    | cons d left =>
      exact absurd (hafter ▸ o.is) (lineEnd_regular hending (List.cons.inj hpart).2)
  | orderMark =>
    obtain ⟨rfl, hmark⟩ : left = [] ∧ o.char = byteOrderMark := by
      cases left with
      | nil => exact ⟨rfl, (List.cons.inj hpart).1.symm⟩
      | cons d left => simp at hpart
    rw [List.append_nil] at hbefore
    refine Or.inr ⟨Kind.Is.eq_innerMark (hmark ▸ o.is), ?_⟩
    rw [BetweenTokens, offset, hbefore]
    exact hapart

/-- **Irregular characters are hidden.**  In a text that has tokens each is in a string literal
or in a comment, or is a byte order mark between tokens. -/
theorem hidden {source : String} {stream : TokenStream} (h : tokenize source = .ok stream)
    (o : Occurrence source.toList) : o.InString stream.tokens ∨ o.InComment stream.tokens ∨
      o.kind = .innerMark ∧ o.BetweenTokens stream.tokens := by
  obtain ⟨lexemes, last, out, lines, rest, hscan, hsteps, hfinish, rfl⟩ := tokenize_steps h
  rcases hsteps.covered hscan (Layout.finish_cases hfinish).1 o.offset_lt with
    ⟨lexeme, hlexeme, hlow, hhigh⟩ | ⟨front, part, back, hcs, hskipped, hlow, hhigh, hfree⟩
  · rcases hsteps.origin lexeme hlexeme with hread | ⟨-, other, -, hspan⟩
    · obtain ⟨hstring, hstop⟩ := o.in_string hscan hread hlow hhigh
      exact Or.inl ⟨lexeme, List.mem_append_left _ hlexeme, hstring, hlow, hstop⟩
    · -- A mark covers nothing.
      rw [hspan] at hlow hhigh
      exact absurd hhigh (Nat.not_lt.mpr hlow)
  rcases hskipped with hgap | hdropped
  · refine Or.inr (o.in_gap hcs hgap hlow hhigh fun lexeme hlexeme => ?_)
    rcases List.mem_append.mp hlexeme with hlexeme | hlexeme
    · exact hfree lexeme hlexeme
    · -- The marks at the end stand after everything else.
      rw [Layout.finish_point hfinish lexeme hlexeme, hcs, byteLength_append, byteLength_append]
      exact Or.inr (Nat.le_add_right _ _)
  · obtain ⟨left, right, -, hpart, hafter, -⟩ := o.within hcs hlow hhigh
    exact absurd (hafter ▸ o.is) (lineEnd_regular hdropped.1 hpart)

end Occurrence

/-! ### What the check looks at -/

/-- The irregularity that a character of the kind is. -/
def Kind.irregularity (c : Char) : Kind → Irregularity
  | control => .control c
  | replacement => .replacement
  | innerMark => .innerMark
  | bareReturn => .bareReturn

def Irregularity.kind : Irregularity → Kind
  | control _ => .control
  | replacement => .replacement
  | innerMark => .innerMark
  | bareReturn => .bareReturn

@[simp] theorem Kind.kind_irregularity (kind : Kind) (c : Char) :
    (kind.irregularity c).kind = kind := by
  cases kind <;> rfl

theorem Irregularity.sameKind_eq (a b : Irregularity) : a.sameKind b = (a.kind == b.kind) := by
  cases a <;> cases b <;> rfl

/-- The check tells irregular characters by their kinds. -/
theorem Irregularity.of?_eq_some_iff {irregularity : Irregularity} :
    Irregularity.of? (byteLength before) c after.head? = some irregularity ↔
      ∃ kind : Kind, kind.Is before c after ∧ kind.irregularity c = irregularity := by
  have hinner : 0 < byteLength before ↔ before ≠ [] :=
    ⟨fun hpos hnil => by simp [hnil] at hpos, byteLength_pos⟩
  constructor
  · intro h
    unfold Irregularity.of? at h
    split at h
    · rename_i hreturn
      split at h
      · cases h
      · rename_i hnext
        cases h
        exact ⟨.bareReturn, ⟨hreturn, hnext⟩, rfl⟩
    rename_i hreturn
    split at h
    · rename_i hreplacement
      cases h
      exact ⟨.replacement, hreplacement, rfl⟩
    split at h
    · rename_i hmark
      split at h
      · rename_i hpos
        cases h
        exact ⟨.innerMark, ⟨hmark, hinner.mp hpos⟩, rfl⟩
      · cases h
    split at h
    · cases h
    rename_i hblank
    split at h
    · rename_i hcontrol
      cases h
      exact ⟨.control, ⟨hcontrol, by simp_all⟩, rfl⟩
    · cases h
  · rintro ⟨kind, his, rfl⟩
    cases kind with
    | control =>
      obtain ⟨hcontrol, hother⟩ := his
      have hreplacement : c ≠ '\ufffd' := by
        rintro rfl
        exact absurd hcontrol (by decide)
      have hmark : c ≠ '\ufeff' := by
        rintro rfl
        exact absurd hcontrol (by decide)
      simp_all [Irregularity.of?, Kind.irregularity]
    | replacement =>
      cases his
      rfl
    | innerMark =>
      obtain ⟨rfl, hne⟩ := his
      simp [Irregularity.of?, Kind.irregularity, byteLength_pos hne]
    | bareReturn =>
      obtain ⟨rfl, hnext⟩ := his
      simp [Irregularity.of?, Kind.irregularity, hnext]

/-- What the check notes of an irregular character. -/
def Occurrence.noted (o : Occurrence cs) : Nat × Irregularity :=
  (o.offset, o.kind.irregularity o.char)

theorem byteLength_next (front : List Char) (d : Char) :
    byteLength front + d.utf8Size = byteLength (front ++ [d]) := by
  simp [byteLength_append, byteLength_cons]

theorem mem_occurrences_from {front : List Char} {found : Nat × Irregularity} :
    found ∈ occurrences (byteLength front) cs ↔ ∃ before c after, cs = before ++ c :: after ∧
      found.1 = byteLength (front ++ before) ∧
      Irregularity.of? found.1 c after.head? = some found.2 := by
  induction cs generalizing front with
  | nil => simp [occurrences]
  | cons d cs ih =>
    rw [occurrences, List.mem_append, byteLength_next, ih]
    constructor
    · rintro (hfirst | ⟨before, c, after, rfl, hoffset, hfound⟩)
      · obtain ⟨irregularity, hfound, rfl⟩ :=
          Option.map_eq_some_iff.mp (Option.mem_toList.mp hfirst)
        exact ⟨[], d, cs, rfl, by simp, hfound⟩
      · exact ⟨d :: before, c, after, rfl, by simpa using hoffset, hfound⟩
    · rintro ⟨before, c, after, hcs, hoffset, hfound⟩
      cases before with
      | nil =>
        obtain ⟨rfl, rfl⟩ := List.cons.inj hcs
        rw [List.append_nil] at hoffset
        rw [hoffset] at hfound
        refine Or.inl (Option.mem_toList.mpr (Option.map_eq_some_iff.mpr ⟨found.2, hfound, ?_⟩))
        rw [← hoffset]
      | cons e before =>
        obtain ⟨rfl, rfl⟩ := List.cons.inj hcs
        exact Or.inr ⟨before, c, after, rfl, by simpa using hoffset, hfound⟩

/-- **The check goes through all irregular characters.** -/
theorem mem_occurrences {found : Nat × Irregularity} :
    found ∈ occurrences 0 cs ↔ ∃ o : Occurrence cs, o.noted = found := by
  rw [← byteLength_nil, mem_occurrences_from]
  constructor
  · rintro ⟨before, c, after, hcs, hoffset, hfound⟩
    rw [List.nil_append] at hoffset
    rw [hoffset, Irregularity.of?_eq_some_iff] at hfound
    obtain ⟨kind, his, hirregularity⟩ := hfound
    exact ⟨⟨kind, before, c, after, hcs, his⟩, Prod.ext hoffset.symm hirregularity⟩
  · rintro ⟨o, rfl⟩
    exact ⟨o.before, o.char, o.after, o.stands, rfl,
      Irregularity.of?_eq_some_iff.mpr ⟨o.kind, o.is, rfl⟩⟩

/-- They come in the order of the text. -/
theorem occurrences_ordered (front cs : List Char) :
    (occurrences (byteLength front) cs).Pairwise (·.1 < ·.1) := by
  induction cs generalizing front with
  | nil => simp [occurrences]
  | cons d cs ih =>
    rw [occurrences, byteLength_next, List.pairwise_append]
    refine ⟨?_, ih _, fun found hfound later hlater => ?_⟩
    · cases Irregularity.of? (byteLength front) d cs.head? <;> simp
    · obtain ⟨irregularity, -, rfl⟩ := Option.map_eq_some_iff.mp (Option.mem_toList.mp hfound)
      obtain ⟨before, c, after, -, hoffset, -⟩ := mem_occurrences_from.mp hlater
      have := d.utf8Size_pos
      rw [hoffset, byteLength_append, ← byteLength_next]
      simp only
      omega

/-! ### The first of each kind -/

/-- Irregular characters of a text, the first of each kind in the order in which they come. -/
structure Firsts (firsts : List (Occurrence cs)) : Prop where
  /-- No kind has two. -/
  once : (firsts.map Occurrence.kind).Nodup
  /-- Every kind that occurs has one. -/
  every : ∀ o : Occurrence cs, o.kind ∈ firsts.map Occurrence.kind
  /-- It is not behind another of its kind. -/
  first : ∀ o ∈ firsts, ∀ other : Occurrence cs, other.kind = o.kind → o.offset ≤ other.offset
  inOrder : firsts.Pairwise (·.offset < ·.offset)

/-- In order, what is found comes before all else that could be. -/
theorem le_of_find? {entries : List (Nat × Irregularity)} {found other : Nat × Irregularity}
    {p : Nat × Irregularity → Bool} (hordered : entries.Pairwise (·.1 < ·.1))
    (h : entries.find? p = some found) (hother : other ∈ entries) (hp : p other = true) :
    found.1 ≤ other.1 := by
  obtain ⟨-, earlier, later, rfl, hearlier⟩ := List.find?_eq_some_iff_append.mp h
  rcases List.mem_append.mp hother with hmem | hmem
  · exact absurd hp (by simpa using hearlier other hmem)
  · rcases List.mem_cons.mp hmem with rfl | hmem
    · exact Nat.le_refl _
    · have hlater := (List.pairwise_cons.mp (List.pairwise_append.mp hordered).2.1).1
      exact (hlater other hmem).le

/-- **What the check keeps are the first of each kind.** -/
theorem exists_firsts (cs : List Char) :
    ∃ firsts : List (Occurrence cs), firsts.map Occurrence.noted = firstOfEachKind cs ∧
      Firsts firsts := by
  have hkinds : firstOfEachKind cs =
      (occurrences 0 cs).eraseDupsBy fun a b => a.2.kind == b.2.kind := by
    simp only [firstOfEachKind, Irregularity.sameKind_eq]
  have hsublist : (firstOfEachKind cs).Sublist (occurrences 0 cs) := eraseDupsBy_sublist _
  have hordered : (occurrences 0 cs).Pairwise (·.1 < ·.1) := occurrences_ordered [] cs
  have hnoted (o : Occurrence cs) : o.noted ∈ occurrences 0 cs := mem_occurrences.mpr ⟨o, rfl⟩
  -- What is kept was noted of some irregular character each.
  obtain ⟨firsts, hfirsts⟩ : ∃ firsts : List (Occurrence cs),
      firsts.map Occurrence.noted = firstOfEachKind cs := by
    rw [← Set.mem_range, Set.range_list_map]
    exact fun found hfound => mem_occurrences.mp (hsublist.subset hfound)
  have hfirstKinds : firsts.map Occurrence.kind = (firstOfEachKind cs).map (·.2.kind) := by
    rw [← hfirsts, List.map_map]
    exact List.map_congr_left fun o _ => (Kind.kind_irregularity ..).symm
  refine ⟨firsts, hfirsts, ?once, fun o => ?every, fun o ho other hother => ?first, ?inOrder⟩
  case once =>
    rw [hfirstKinds, hkinds]
    exact nodup_eraseDupsBy _
  case every =>
    rw [hfirstKinds, hkinds, mem_map_eraseDupsBy]
    exact List.mem_map.mpr ⟨o.noted, hnoted o, Kind.kind_irregularity ..⟩
  case first =>
    have hkept : o.noted ∈ firstOfEachKind cs := hfirsts ▸ List.mem_map_of_mem ho
    rw [hkinds, mem_eraseDupsBy_iff] at hkept
    exact le_of_find? hordered hkept (hnoted other) (by simp [Occurrence.noted, hother])
  case inOrder =>
    have hkept := hordered.sublist hsublist
    rwa [← hfirsts, List.pairwise_map] at hkept

end Scrutiny.Characters

namespace Scrutiny

open Characters

/-- **Irregular characters are hidden from the parser and reported once a kind.**  In a source that
has tokens, each control character, replacement character and bare carriage return is part of a
string literal or of a comment, and so is each inner byte order mark that does not stand between
tokens.  The check has one error for each of the four kinds that occurs, with the line of the first
occurrence, in the order of these. -/
theorem irregularities_hidden_and_reported {source : String} {stream : TokenStream}
    (h : tokenize source = .ok stream) :
    (∀ o : Occurrence source.toList, o.InString stream.tokens ∨ o.InComment stream.tokens ∨
      o.kind = .innerMark ∧ o.BetweenTokens stream.tokens) ∧
    ∃ firsts : List (Occurrence source.toList), Firsts firsts ∧
      ∀ subject : Subject, subject.source = source →
        subject.tree.lines = LineTable.ofText source.toList →
        Characters.check.findings subject = firsts.map fun o =>
          .error (subject.diagnosticAt o.line
            s!"Tokenization error: {(o.kind.irregularity o.char).describe} at line {o.line}") := by
  refine ⟨Occurrence.hidden h, ?_⟩
  obtain ⟨firsts, hnoted, hfirsts⟩ := exists_firsts source.toList
  refine ⟨firsts, hfirsts, fun subject hsource hlines => ?_⟩
  have hline (o : Occurrence source.toList) : subject.lineOf o.offset = o.line := by
    have hbetween := LineTable.line_between o.before (o.char :: o.after)
    rw [← o.stands] at hbetween
    rw [Subject.lineOf, Tree.lineOf, hlines]
    exact hbetween
  have hfindings : Characters.check.findings subject = (firstOfEachKind source.toList).map
      fun found => .error (subject.diagnosticAt (subject.lineOf found.1)
        s!"Tokenization error: {found.2.describe} at line {subject.lineOf found.1}") := by
    rw [← hsource]
    rfl
  rw [hfindings, ← hnoted, List.map_map]
  refine List.map_congr_left fun o _ => ?_
  simp only [Function.comp, Occurrence.noted, hline]

/-- All four kinds: two in a string literal, one in a comment and one between tokens. -/
theorem irregularities_hidden_and_reported_four : ∃ source stream,
    source = "x = \"\"\"\x01\r\"\"\" # \ufffd\x02\n\ufeffy = 1\n" ∧
    tokenize source = .ok stream ∧
    firstOfEachKind source.toList
      = [(7, .control '\x01'), (8, .bareReturn), (15, .replacement), (20, .innerMark)] ∧
    (∀ o : Occurrence source.toList, o.InString stream.tokens ∨ o.InComment stream.tokens ∨
      o.kind = .innerMark ∧ o.BetweenTokens stream.tokens) ∧
    ∃ firsts : List (Occurrence source.toList), Firsts firsts ∧
      ∀ subject : Subject, subject.source = source →
        subject.tree.lines = LineTable.ofText source.toList →
        Characters.check.findings subject = firsts.map fun o =>
          .error (subject.diagnosticAt o.line
            s!"Tokenization error: {(o.kind.irregularity o.char).describe} at line {o.line}") := by
  obtain ⟨source, hsource⟩ :
      ∃ source, source = "x = \"\"\"\x01\r\"\"\" # \ufffd\x02\n\ufeffy = 1\n" := ⟨_, rfl⟩
  have hok : (tokenize source).toOption.isSome = true := by
    rw [hsource]
    decide +kernel
  cases hstream : tokenize source with
  | error errors => simp [hstream, Except.toOption] at hok
  | ok stream =>
    refine ⟨source, stream, hsource, hstream, ?_, irregularities_hidden_and_reported hstream⟩
    rw [hsource]
    decide +kernel

end Scrutiny
