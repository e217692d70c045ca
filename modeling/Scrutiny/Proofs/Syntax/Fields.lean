/-
The names that replacement fields read.

A doubled brace is text.  So of some braces in a row, as many as there are, all are text if
their number is even, and if it is odd the last one opens a field (`HasField`).  A field
reads the word it opens with, if that is a name.  The scan for these words goes from left
to right, two braces at a time, and finds just them (`mem_fieldNames`).
-/
import Mathlib.Data.List.Basic
import Scrutiny.Syntax.Literal

namespace Scrutiny

/-! ### Words -/

/-- A text begins with a run of characters of some kind, and no longer one. -/
structure LongestRun (kind : Char → Bool) (cs run rest : List Char) : Prop where
  split : cs = run ++ rest
  all : ∀ c ∈ run, kind c = true
  stops : ∀ c ∈ rest.head?, kind c = false

theorem longestRun_iff {kind : Char → Bool} {cs run rest : List Char} :
    LongestRun kind cs run rest ↔ cs.takeWhile kind = run ∧ cs.dropWhile kind = rest := by
  constructor
  · rintro ⟨rfl, hall, hstops⟩
    rw [List.takeWhile_append_of_pos hall, List.dropWhile_append_of_pos hall]
    cases rest with
    | nil => simp
    | cons c rest => simp [hstops c rfl]
  · rintro ⟨rfl, rfl⟩
    refine ⟨List.takeWhile_append_dropWhile.symm, List.all_eq_true.mp List.all_takeWhile, ?_⟩
    intro c hc
    have hhead := List.head?_dropWhile_not kind cs
    rwa [hc] at hhead

/-- Behind its brace a field opens with a word that is a name: white space, and the word. -/
def OpensWith (cs word : List Char) : Prop :=
  ∃ blanks inside after, LongestRun isBlank cs blanks inside ∧
    LongestRun isFieldChar inside word after ∧ isFieldName word = true

theorem opensWith_iff {cs word : List Char} : OpensWith cs word ↔
    (cs.dropWhile isBlank).takeWhile isFieldChar = word ∧ isFieldName word = true := by
  simp only [OpensWith, longestRun_iff]
  constructor
  · rintro ⟨blanks, inside, after, ⟨-, rfl⟩, ⟨hword, -⟩, hname⟩
    exact ⟨hword, hname⟩
  · rintro ⟨hword, hname⟩
    exact ⟨_, _, _, ⟨rfl, rfl⟩, ⟨hword, rfl⟩, hname⟩

/-! ### Fields -/

/-- In a text there is a field that opens with the word: behind a row of braces that are odd
in number. -/
def HasField (cs word : List Char) : Prop :=
  ∃ before pairs inside, cs = before ++ (List.replicate (2 * pairs + 1) '\x7b' ++ inside) ∧
    before.getLast? ≠ some '\x7b' ∧ OpensWith inside word

variable {cs word : List Char}

theorem OpensWith.head?_ne (h : OpensWith cs word) : cs.head? ≠ some '\x7b' := by
  intro hhead
  obtain ⟨rest, rfl⟩ : ∃ rest, cs = '\x7b' :: rest := List.head?_eq_some_iff.mp hhead
  have hblank : isBlank '\x7b' = false := by decide
  have hchar : isFieldChar '\x7b' = false := by decide
  obtain ⟨rfl, hname⟩ := opensWith_iff.mp h
  simp [hblank, hchar, isFieldName] at hname

theorem not_hasField_nil : ¬ HasField [] word := by
  rintro ⟨before, pairs, inside, h, -⟩
  simp at h

theorem hasField_cons {c : Char} (hc : c ≠ '\x7b') :
    HasField (c :: cs) word ↔ HasField cs word := by
  constructor
  · rintro ⟨before, pairs, inside, h, hbefore, hinside⟩
    cases before with
    | nil => exact absurd (List.cons.inj h).1 hc
    | cons b before =>
      obtain ⟨-, rfl⟩ := List.cons.inj h
      refine ⟨before, pairs, inside, rfl, fun hlast => hbefore ?_, hinside⟩
      rw [List.getLast?_cons, hlast]
      rfl
  · rintro ⟨before, pairs, inside, rfl, hbefore, hinside⟩
    refine ⟨c :: before, pairs, inside, rfl, ?_, hinside⟩
    rw [List.getLast?_cons]
    cases hlast : before.getLast? with
    | none => simpa using hc
    | some b => simpa [hlast] using hbefore

/-- A pair of braces is text. -/
theorem hasField_pair : HasField ('\x7b' :: '\x7b' :: cs) word ↔ HasField cs word := by
  constructor
  · rintro ⟨before, pairs, inside, h, hbefore, hinside⟩
    match before with
    | [] =>
      cases pairs with
      | zero =>
        obtain ⟨-, h⟩ := List.cons.inj h
        exact absurd (congrArg List.head? h).symm hinside.head?_ne
      | succ pairs =>
        obtain ⟨-, h⟩ := List.cons.inj h
        obtain ⟨-, rfl⟩ := List.cons.inj h
        exact ⟨[], pairs, inside, rfl, by simp, hinside⟩
    | [b] =>
      obtain ⟨rfl, -⟩ := List.cons.inj h
      simp at hbefore
    | b :: b' :: before =>
      obtain ⟨-, h⟩ := List.cons.inj h
      obtain ⟨rfl, rfl⟩ := List.cons.inj h
      refine ⟨before, pairs, inside, rfl, fun hlast => hbefore ?_, hinside⟩
      rw [List.getLast?_cons, List.getLast?_cons, hlast]
      rfl
  · rintro ⟨before, pairs, inside, rfl, hbefore, hinside⟩
    cases before with
    | nil => exact ⟨[], pairs + 1, inside, rfl, by simp, hinside⟩
    | cons b before =>
      refine ⟨'\x7b' :: '\x7b' :: b :: before, pairs, inside, rfl, ?_, hinside⟩
      rwa [List.getLast?_cons_cons, List.getLast?_cons_cons]

/-- A single brace opens a field. -/
theorem hasField_single (hcs : cs.head? ≠ some '\x7b') :
    HasField ('\x7b' :: cs) word ↔ OpensWith cs word ∨ HasField cs word := by
  constructor
  · rintro ⟨before, pairs, inside, h, hbefore, hinside⟩
    match before with
    | [] =>
      obtain ⟨-, rfl⟩ := List.cons.inj h
      cases pairs with
      | zero => exact .inl hinside
      | succ pairs => exact absurd rfl hcs
    | [b] =>
      obtain ⟨rfl, -⟩ := List.cons.inj h
      simp at hbefore
    | b :: b' :: before =>
      obtain ⟨-, rfl⟩ := List.cons.inj h
      rw [List.getLast?_cons_cons] at hbefore
      exact .inr ⟨b' :: before, pairs, inside, rfl, hbefore, hinside⟩
  · rintro (hopens | ⟨before, pairs, inside, rfl, hbefore, hinside⟩)
    · exact ⟨[], 0, cs, rfl, by simp, hopens⟩
    · cases before with
      | nil => exact absurd rfl hcs
      | cons b before =>
        refine ⟨'\x7b' :: b :: before, pairs, inside, rfl, ?_, hinside⟩
        rwa [List.getLast?_cons_cons]

theorem hasField_dropWhile {kind : Char → Bool} (hkind : kind '\x7b' = false) :
    HasField (cs.dropWhile kind) word ↔ HasField cs word := by
  induction cs with
  | nil => rfl
  | cons c cs ih =>
    rw [List.dropWhile_cons]
    split
    case isTrue h =>
      have hc : c ≠ '\x7b' := by
        rintro rfl
        simp [hkind] at h
      rw [ih, hasField_cons hc]
    case isFalse => rfl

/-- Behind a single brace, the next field is behind the word. -/
theorem hasField_behind (hcs : cs.head? ≠ some '\x7b') : HasField ('\x7b' :: cs) word ↔
    ((cs.dropWhile isBlank).takeWhile isFieldChar = word ∧ isFieldName word = true) ∨
      HasField ((cs.dropWhile isBlank).dropWhile isFieldChar) word := by
  rw [hasField_single hcs, opensWith_iff, hasField_dropWhile (by decide),
    hasField_dropWhile (by decide)]

/-- **The scan finds the names that fields open with.** -/
theorem mem_fieldNames {name : String} :
    name ∈ fieldNames cs ↔ ∃ word, HasField cs word ∧ String.ofList word = name := by
  fun_induction fieldNames cs with
  | case1 => simp [not_hasField_nil]
  | case2 cs ih => simp only [hasField_pair, ih]
  | case3 cs hcs inside word rest hname ih =>
    have hhead : cs.head? ≠ some '\x7b' := fun h => (List.head?_eq_some_iff.mp h).elim hcs
    simp only [hasField_behind hhead, List.mem_cons, rest, ih, or_and_right, exists_or]
    refine or_congr_left ⟨?_, ?_⟩
    · rintro rfl
      exact ⟨word, ⟨rfl, hname⟩, rfl⟩
    · rintro ⟨_, ⟨rfl, -⟩, rfl⟩
      rfl
  | case4 cs hcs inside word rest hname ih =>
    have hhead : cs.head? ≠ some '\x7b' := fun h => (List.head?_eq_some_iff.mp h).elim hcs
    simp only [hasField_behind hhead, rest, ih, or_and_right, exists_or]
    refine (or_iff_right ?_).symm
    rintro ⟨_, ⟨rfl, hname'⟩, -⟩
    exact hname hname'
  | case5 c cs _ hc ih => simp only [hasField_cons hc, ih]

/-! ### Literals -/

/-- A part of a string literal reads a name: it is marked as one with fields, and behind the
marks there is a field that opens with the name. -/
def PartReads (part name : String) : Prop :=
  ∃ letters body word, LongestRun Char.isAlpha part.toList letters body ∧
    (∃ c ∈ letters, c.toLower = 'f') ∧ HasField body word ∧ String.ofList word = name

theorem mem_partFields {part name : String} :
    name ∈ StringLiteral.partFields part ↔ PartReads part name := by
  have hmarks : StringLiteral.isFormattedPart part = true
      ↔ ∃ c ∈ part.toList.takeWhile Char.isAlpha, c.toLower = 'f' := by
    simp [StringLiteral.isFormattedPart, StringLiteral.marks]
  simp only [StringLiteral.partFields, PartReads, longestRun_iff]
  constructor
  · intro h
    split at h
    case isTrue hpart =>
      obtain ⟨word, hword, hname⟩ := mem_fieldNames.mp h
      exact ⟨_, _, word, ⟨rfl, rfl⟩, hmarks.mp hpart, hword, hname⟩
    case isFalse => cases h
  · rintro ⟨letters, body, word, ⟨rfl, rfl⟩, hletters, hword⟩
    rw [if_pos (hmarks.mpr hletters)]
    exact mem_fieldNames.mpr ⟨word, hword⟩

/-- A literal that says what is written in its parts reads what they read. -/
theorem mem_fields {literal : StringLiteral} (h : literal = .ofParts literal.parts)
    {name : String} :
    name ∈ literal.fields ↔ ∃ part ∈ literal.parts, PartReads part name := by
  have hfields : literal.fields = literal.parts.flatMap StringLiteral.partFields :=
    congrArg StringLiteral.fields h
  simp only [hfields, List.mem_flatMap, mem_partFields]

end Scrutiny
