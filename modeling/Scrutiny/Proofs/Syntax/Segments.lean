/-
Reading replacement fields back.

A format string is written in segments: text without braces, doubled braces, and fields
(`Segment`).  Whatever the segments are, and whatever they stand next to, the scan of the text
they make finds the names of the fields, in their order, without those that are keywords
(`fieldNames_segments`).

The scan does not look behind a segment.  Each of them leaves it at the start of the next one,
so it is enough to read one segment, whatever follows (`Segment.fieldNames_append`).
-/
import Scrutiny.Proofs.Syntax.Fields

namespace Scrutiny

/-- A character that is no brace. -/
def IsPlain (c : Char) : Prop :=
  c ≠ '\x7b' ∧ c ≠ '\x7d'

/-- A replacement field: white space, a name, and what follows the name. -/
structure Field where
  blanks : List Char
  name : List Char
  tail : List Char
  blank : ∀ c ∈ blanks, isBlank c = true
  /-- The name is not empty: it starts with a letter or an underscore. -/
  begins : ∃ c ∈ name.head?, c = '_' ∨ isAlphabetic c = true
  word : ∀ c ∈ name, isFieldChar c = true
  /-- The name ends where the tail starts. -/
  ends : ∀ c ∈ tail.head?, isFieldChar c = false
  plain : ∀ c ∈ tail, IsPlain c

/-- A piece of a format string. -/
inductive Segment
  | text (cs : List Char) (plain : ∀ c ∈ cs, IsPlain c)
  | opening
  | closing
  | field (f : Field)

namespace Segment

/-- A segment as written. -/
def chars : Segment → List Char
  | text cs _ => cs
  | opening => ['\x7b', '\x7b']
  | closing => ['\x7d', '\x7d']
  | field f => '\x7b' :: (f.blanks ++ (f.name ++ (f.tail ++ ['\x7d'])))

/-- The name that a segment reads. -/
def read? : Segment → Option String
  | field f => if String.ofList f.name ∈ fieldKeywords then none else some (String.ofList f.name)
  | _ => none

end Segment

/-! ### White space and words -/

/-- White space is no part of a word. -/
theorem isFieldChar_of_isBlank {c : Char} (h : isBlank c = true) : isFieldChar c = false := by
  let codes := [9, 10, 11, 12, 13, 0x20, 0x85, 0xA0, 0x1680, 0x2028, 0x2029, 0x202F, 0x205F, 0x3000]
    ++ List.range' 0x2000 11
  have hall : codes.all (fun n => !isFieldChar (Char.ofNat n)) = true := by decide +kernel
  have hmem : c.toNat ∈ codes := by
    simp only [isBlank, Bool.or_eq_true, Bool.and_eq_true, decide_eq_true_eq, beq_iff_eq] at h
    simp only [codes, List.mem_append, List.mem_cons, List.mem_range'_1]
    omega
  simpa [Char.ofNat_toNat] using List.all_eq_true.mp hall c.toNat hmem

/-- Behind a single brace the scan reads a word and goes on where the word ends. -/
theorem fieldNames_brace {cs blanks inside word after : List Char}
    (hblanks : LongestRun isBlank cs blanks inside)
    (hword : LongestRun isFieldChar inside word after) (hne : word ≠ []) :
    fieldNames ('\x7b' :: cs)
      = (if isFieldName word then [String.ofList word] else []) ++ fieldNames after := by
  obtain ⟨-, hinside⟩ := longestRun_iff.mp hblanks
  obtain ⟨hrun, hafter⟩ := longestRun_iff.mp hword
  have hsingle : ∀ rest, cs ≠ '\x7b' :: rest := by
    intro rest hcs
    have hblank : isBlank '\x7b' = false := by decide
    have hchar : isFieldChar '\x7b' = false := by decide
    rw [hcs, List.dropWhile_cons_of_neg (by simp [hblank])] at hinside
    rw [← hinside, List.takeWhile_cons_of_neg (by simp [hchar])] at hrun
    exact hne hrun.symm
  rw [fieldNames.eq_3 cs hsingle, hinside, hrun, hafter]
  split
  · rfl
  · rfl

/-! ### Segments -/

theorem fieldNames_plain_append {cs : List Char} (h : ∀ c ∈ cs, IsPlain c) (rest : List Char) :
    fieldNames (cs ++ rest) = fieldNames rest := by
  induction cs with
  | nil => rfl
  | cons c cs ih =>
    obtain ⟨hc, hcs⟩ := List.forall_mem_cons.mp h
    rw [List.cons_append, fieldNames.eq_4 _ _ (fun _ h' => absurd h' hc.1) hc.1, ih hcs]

theorem fieldNames_closing (rest : List Char) : fieldNames ('\x7d' :: rest) = fieldNames rest :=
  fieldNames.eq_4 _ _ (fun _ h => absurd h (by decide)) (by decide)

namespace Field

variable (f : Field)

theorem name_ne_nil : f.name ≠ [] := by
  intro h
  obtain ⟨c, hc, -⟩ := f.begins
  rw [h] at hc
  cases hc

/-- The white space of a field ends where its name starts. -/
theorem blanks_run (more : List Char) :
    LongestRun isBlank (f.blanks ++ (f.name ++ more)) f.blanks (f.name ++ more) where
  split := rfl
  all := f.blank
  stops := by
    intro c hc
    rw [List.head?_append_of_ne_nil _ f.name_ne_nil] at hc
    by_contra hblank
    have hchar := f.word c (List.mem_of_mem_head? hc)
    rw [isFieldChar_of_isBlank (by simpa using hblank)] at hchar
    cases hchar

/-- The name of a field ends where its tail starts. -/
theorem name_run (rest : List Char) :
    LongestRun isFieldChar (f.name ++ (f.tail ++ '\x7d' :: rest)) f.name
      (f.tail ++ '\x7d' :: rest) where
  split := rfl
  all := f.word
  stops := by
    intro c hc
    cases htail : f.tail with
    | nil =>
      rw [htail] at hc
      obtain rfl : '\x7d' = c := by simpa using hc
      decide
    | cons d tail =>
      rw [htail] at hc
      exact f.ends c (by simpa [htail] using hc)

theorem isFieldName_iff : isFieldName f.name = true ↔ String.ofList f.name ∉ fieldKeywords := by
  obtain ⟨c, hc, hletter⟩ := f.begins
  have hbegins : (f.name.head?.any fun c => c == '_' || isAlphabetic c) = true := by
    rw [Option.mem_def.mp hc]
    simpa using hletter
  rw [isFieldName, hbegins]
  simp

end Field

/-- The scan reads a segment and goes on behind it. -/
theorem Segment.fieldNames_append (segment : Segment) (rest : List Char) :
    fieldNames (segment.chars ++ rest) = segment.read?.toList ++ fieldNames rest := by
  cases segment with
  | text cs plain => exact fieldNames_plain_append plain rest
  | opening => exact fieldNames.eq_2 rest
  | closing =>
    show fieldNames ('\x7d' :: '\x7d' :: rest) = fieldNames rest
    rw [fieldNames_closing, fieldNames_closing]
  | field f =>
    have hchars : (field f).chars ++ rest
        = '\x7b' :: (f.blanks ++ (f.name ++ (f.tail ++ '\x7d' :: rest))) := by simp [chars]
    rw [hchars, fieldNames_brace (f.blanks_run _) (f.name_run rest) f.name_ne_nil,
      fieldNames_plain_append f.plain, fieldNames_closing, read?]
    by_cases hkeyword : String.ofList f.name ∈ fieldKeywords
    · rw [if_pos hkeyword, if_neg (by rw [f.isFieldName_iff]; exact not_not_intro hkeyword)]
      rfl
    · rw [if_neg hkeyword, if_pos (f.isFieldName_iff.mpr hkeyword)]
      rfl

/-- **Fields are read back**: in the text that some segments make, the scan finds the names of
the fields, in their order, without those that are keywords. -/
theorem fieldNames_segments (segments : List Segment) :
    fieldNames (segments.flatMap Segment.chars) = segments.filterMap Segment.read? := by
  induction segments with
  | nil => simp [fieldNames]
  | cons segment segments ih =>
    rw [List.flatMap_cons, segment.fieldNames_append, ih, List.filterMap_cons]
    cases segment.read? with
    | none => rfl
    | some name => rfl

/-- A field between doubled braces, with white space before its name and a conversion behind it;
and a field that begins with a keyword. -/
theorem fieldNames_segments_doubled :
    fieldNames "a\x7b\x7b\x7b x1!r\x7d\x7d\x7d\x7bnot b\x7d".toList = ["x1"] := by
  let named : Field :=
    { blanks := [' '], name := ['x', '1'], tail := ['!', 'r']
      blank := List.all_eq_true.mp (by decide), begins := ⟨'x', rfl, Or.inr (by decide)⟩
      word := List.all_eq_true.mp (by decide)
      ends := by simp; decide, plain := by simp [IsPlain] }
  let keyword : Field :=
    { blanks := [], name := ['n', 'o', 't'], tail := [' ', 'b'], blank := by simp
      begins := ⟨'n', rfl, Or.inr (by decide)⟩, word := List.all_eq_true.mp (by decide)
      ends := by simp; decide, plain := by simp [IsPlain] }
  exact fieldNames_segments
    [.text ['a'] (by simp [IsPlain]), .opening, .field named, .closing, .field keyword]

end Scrutiny
