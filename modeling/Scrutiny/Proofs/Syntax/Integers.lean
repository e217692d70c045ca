/-
The value of an integer numeral.

A numeral that was scanned is written in one of two forms (`Numeral.Form`): digits behind the
mark of a base, or a decimal with up to four parts.  Which characters are digits and which are
marks differs between the forms, and reading the value decides between them afresh, once
underscores are gone and letters are small.  It decides as the scan did, because a decimal has
none of the letters that mark a base and a marked numeral has nothing but digits behind its
mark.  So the value is what the digits write in their base, and there is one just if the
numeral has no other part, has a digit at all, and fits in 128 bits.
-/
import Mathlib.Data.Nat.Digits.Defs
import Scrutiny.Proofs.Token.Delimiters
import Scrutiny.Syntax.Expr

namespace Scrutiny

variable {base : Nat} {c : Char} {cs digits exponent fraction imaginary whole : List Char}

namespace Numeral

/-! ### How numerals are written -/

/-- A base that numerals are marked with. -/
inductive Base where
  | hexadecimal | octal | binary

namespace Base

def value : Base → Nat
  | hexadecimal => 16
  | octal => 8
  | binary => 2

def marks : Base → List Char
  | hexadecimal => ['x', 'X']
  | octal => ['o', 'O']
  | binary => ['b', 'B']

end Base

/-- Every digit, of either case. -/
def allDigits : List Char :=
  ['0', '1', '2', '3', '4', '5', '6', '7', '8', '9', 'a', 'b', 'c', 'd', 'e', 'f',
    'A', 'B', 'C', 'D', 'E', 'F']

/-- What a digit counts for. -/
def weight (c : Char) : Nat := allDigits.idxOf c.toLower

/-- The digits of a base. -/
def digitsOf (base : Nat) : List Char := allDigits.filter (weight · < base)

/-- Digits of a base, and underscores anywhere among them. -/
def IsRow (base : Nat) (row : List Char) : Prop := ∀ c ∈ row, c ∈ digitsOf base ∨ c = '_'

/-- A numeral in its parts. -/
inductive Form where
  /-- `0x1F`, `0o17`, `0b11` -/
  | marked (base : Base) (mark : Char) (row : List Char)
  | decimal (whole fraction exponent imaginary : List Char)

namespace Form

def chars : Form → List Char
  | marked _ mark row => '0' :: mark :: row
  | decimal whole fraction exponent imaginary => whole ++ (fraction ++ (exponent ++ imaginary))

/-- The form is one that is read as a numeral. -/
inductive IsRead : Form → Prop
  | marked {base : Base} {mark : Char} {row : List Char} (hmark : mark ∈ base.marks)
      (hrow : IsRow base.value row) (hne : row ≠ []) : IsRead (.marked base mark row)
  | decimal {whole fraction exponent imaginary : List Char} (hwhole : IsRow 10 whole)
      (hfirst : ∃ c rest, c ∈ digitsOf 10 ∧
        (whole = c :: rest ∨ whole = [] ∧ fraction = '.' :: c :: rest))
      (hfraction : fraction = [] ∨ ∃ row, fraction = '.' :: row ∧ IsRow 10 row)
      (hexponent : exponent = [] ∨ ∃ mark sign row, exponent = mark :: (sign ++ row) ∧
        mark ∈ ['e', 'E'] ∧ sign ∈ [[], ['+'], ['-']] ∧ row ≠ [] ∧ IsRow 10 row)
      (himaginary : imaginary ∈ [[], ['j'], ['J']]) :
      IsRead (.decimal whole fraction exponent imaginary)

/-- The form has no fraction, exponent or imaginary part, and has these digits in this base. -/
inductive Writes : Form → Nat → List Char → Prop
  | marked {base : Base} {mark : Char} {row : List Char} :
      Writes (.marked base mark row) base.value (row.filter (· != '_'))
  | decimal {whole : List Char} : Writes (.decimal whole [] [] []) 10 (whole.filter (· != '_'))

end Form

/-- What digits write in a base, the last one counting for itself. -/
def positional (base : Nat) (digits : List Char) : Nat :=
  Nat.ofDigits base (digits.reverse.map weight)

/-- The form writes an integer that fits in 128 bits, with at least one digit. -/
def Form.HasValue (f : Form) (n : Nat) : Prop :=
  ∃ base digits, f.Writes base digits ∧ digits ≠ [] ∧ n = positional base digits ∧ n < Nat.pow 2 127

/-! ### Digits and their value -/

theorem digitValue?_of_mem (h : c ∈ digitsOf base) :
    digitValue? base c.toLower = some (weight c) := by
  obtain ⟨hmem, hlt⟩ := List.mem_filter.mp h
  have hall : allDigits.all fun c => digitValue? 16 c.toLower == some (weight c) := by decide
  have hvalue := List.all_eq_true.mp hall c hmem
  simp only [beq_iff_eq, digitValue?, Option.filter_eq_some_iff] at hvalue ⊢
  exact ⟨hvalue.1, hlt⟩

/-- Each digit moves the ones before it one place on. -/
theorem digitsValue?_eq (base value : Nat) (h : ∀ c ∈ digits, c ∈ digitsOf base) :
    digitsValue? base value (digits.map Char.toLower)
      = some (value * base ^ digits.length + positional base digits) := by
  induction digits generalizing value with
  | nil => simp [digitsValue?, positional]
  | cons c digits ih =>
    have hrest : ∀ d ∈ digits, d ∈ digitsOf base := fun d hd => h d (List.mem_cons_of_mem c hd)
    have hplaces : positional base (c :: digits)
        = positional base digits + base ^ digits.length * weight c := by
      simp [positional, Nat.ofDigits_append]
    simp only [List.map_cons, digitsValue?, digitValue?_of_mem (h c List.mem_cons_self)]
    rw [ih _ hrest, hplaces, List.length_cons]
    congr 1
    ring

theorem digitsValue?_eq_none (value : Nat) (hc : c ∈ cs)
    (hnone : digitValue? base c = none) : digitsValue? base value cs = none := by
  induction cs generalizing value with
  | nil => simp at hc
  | cons d cs ih =>
    rw [digitsValue?]
    cases hd : digitValue? base d with
    | none => rfl
    | some w =>
      rcases List.mem_cons.mp hc with rfl | hc
      · simp [hnone] at hd
      · exact ih _ hc

/-- What begins with no sign is read as it stands. -/
theorem signedValue?_cons (hplus : c ≠ '+') (hminus : c ≠ '-') :
    signedValue? base (c :: cs) = (digitsValue? base 0 (c :: cs)).map Int.ofNat := by
  unfold signedValue?
  split
  · simp_all
  · simp_all
  · rfl

theorem toLower_not_sign (h : c ∈ digitsOf base) : c.toLower ≠ '+' ∧ c.toLower ≠ '-' := by
  have hall : allDigits.all fun c => c.toLower != '+' && c.toLower != '-' := by decide
  simpa using List.all_eq_true.mp hall c (List.mem_of_mem_filter h)

/-- **Digits are read for what they write.** -/
theorem signedValue?_digits (h : ∀ c ∈ digits, c ∈ digitsOf base) :
    signedValue? base (digits.map Char.toLower)
      = if digits = [] then none else some (Int.ofNat (positional base digits)) := by
  cases digits with
  | nil => rfl
  | cons c digits =>
    have hsign := toLower_not_sign (h c List.mem_cons_self)
    rw [List.map_cons, signedValue?_cons hsign.1 hsign.2, ← List.map_cons, digitsValue?_eq base 0 h,
      if_neg (List.cons_ne_nil c digits)]
    simp

theorem fit128?_ofNat (n : Nat) :
    fit128? (Int.ofNat n) = if n < Nat.pow 2 127 then some (Int.ofNat n) else none := by
  have hlow : -((Nat.pow 2 127 : Nat) : Int) ≤ Int.ofNat n := by
    have : (0 : Int) ≤ Int.ofNat n := Int.natCast_nonneg n
    omega
  simp only [fit128?]
  exact if_congr (by rw [Int.ofNat_eq_natCast, Int.ofNat_lt]; exact and_iff_right hlow) rfl rfl

/-- What is left of a numeral to read the value from. -/
def cleaned (chars : List Char) : List Char := (chars.filter (· != '_')).map Char.toLower

theorem IsRow.mem_filter {row : List Char} (h : IsRow base row) :
    ∀ c ∈ row.filter (· != '_'), c ∈ digitsOf base := by
  intro c hc
  obtain ⟨hmem, hne⟩ := List.mem_filter.mp hc
  exact (h c hmem).resolve_right (by simpa using hne)

/-- The mark of a base is known again. -/
theorem splitBase_marked {base : Base} {mark : Char} (hmark : mark ∈ base.marks) (row : List Char) :
    splitBase (cleaned ('0' :: mark :: row)) = (base.value, cleaned row) := by
  cases base
  all_goals
    simp only [Base.marks, List.mem_cons, List.not_mem_nil, or_false] at hmark
    rcases hmark with rfl | rfl <;> rfl

/-- The characters of decimals. -/
def decimalChars : List Char := digitsOf 10 ++ ['_', '.', 'e', 'E', '+', '-', 'j', 'J']

/-- **A decimal has no letter that marks a base.** -/
theorem splitBase_decimal (h : ∀ c ∈ cs, c ∈ decimalChars) :
    splitBase (cleaned cs) = (10, cleaned cs) := by
  have hplain : ∀ c ∈ cleaned cs, c ∉ ['x', 'o', 'b'] := by
    intro c hc
    obtain ⟨d, hd, rfl⟩ := List.mem_map.mp hc
    have hall : decimalChars.all fun d => !(['x', 'o', 'b'].contains d.toLower) := by decide
    simpa using List.all_eq_true.mp hall d (h d (List.mem_of_mem_filter hd))
  unfold splitBase
  split
  all_goals simp_all

namespace Form

variable (h : IsRead (.decimal whole fraction exponent imaginary))

include h

theorem IsRead.mem_decimalChars :
    ∀ c ∈ chars (.decimal whole fraction exponent imaginary), c ∈ decimalChars := by
  have hrow : ∀ {row : List Char}, IsRow 10 row → ∀ c ∈ row, c ∈ decimalChars := by
    intro row hrow c hc
    rcases hrow c hc with hdigit | rfl
    · exact List.mem_append_left _ hdigit
    · decide
  cases h with
  | decimal hwhole hfirst hfraction hexponent himaginary =>
    intro c hc
    simp only [chars, List.mem_append] at hc
    rcases hc with hc | hc | hc | hc
    · exact hrow hwhole c hc
    · rcases hfraction with rfl | ⟨row, rfl, hfraction⟩
      · simp at hc
      · rcases List.mem_cons.mp hc with rfl | hc
        · decide
        · exact hrow hfraction c hc
    · rcases hexponent with rfl | ⟨mark, sign, row, rfl, hmark, hsign, -, hexponent⟩
      · simp at hc
      · simp only [List.mem_cons, List.not_mem_nil, or_false] at hmark hsign
        rcases List.mem_cons.mp hc with rfl | hc
        · rcases hmark with rfl | rfl <;> decide
        · rcases List.mem_append.mp hc with hc | hc
          · rcases hsign with rfl | rfl | rfl <;> simp at hc <;> subst hc <;> decide
          · exact hrow hexponent c hc
    · simp only [List.mem_cons, List.not_mem_nil, or_false] at himaginary
      rcases himaginary with rfl | rfl | rfl <;> simp at hc <;> subst hc <;> decide

omit h

theorem intValue?_chars (cs : List Char) : intValue? (String.ofList cs)
    = (signedValue? (splitBase (cleaned cs)).1 (splitBase (cleaned cs)).2).bind fit128? := by
  simp [intValue?, cleaned]

variable {f : Form}

theorem IsRead.intValue?_of_writes (h : f.IsRead)
    (hwrites : f.Writes base digits) : intValue? (String.ofList f.chars) = if digits = [] then none
      else if positional base digits < Nat.pow 2 127 then some (Int.ofNat (positional base digits))
      else none := by
  have hvalue {base : Nat} {row : List Char} (hrow : IsRow base row) :
      (signedValue? base (cleaned row)).bind fit128? = if row.filter (· != '_') = [] then none
        else if positional base (row.filter (· != '_')) < Nat.pow 2 127
          then some (Int.ofNat (positional base (row.filter (· != '_')))) else none := by
    rw [cleaned, signedValue?_digits hrow.mem_filter]
    split
    · rfl
    · rw [Option.bind_some, fit128?_ofNat]
  rw [intValue?_chars]
  cases hwrites with
  | marked =>
    cases h with
    | marked hmark hrow hne =>
      rw [chars, splitBase_marked hmark]
      exact hvalue hrow
  | decimal =>
    rw [splitBase_decimal h.mem_decimalChars]
    cases h with
    | decimal hwhole =>
      simp only [chars, List.append_nil]
      exact hvalue hwhole

include h

/-- A decimal begins with a digit or a point, and not with a sign. -/
theorem IsRead.cleaned_eq_cons :
    ∃ c rest, cleaned (chars (.decimal whole fraction exponent imaginary)) = c :: rest ∧
      c ≠ '+' ∧ c ≠ '-' := by
  cases h with
  | decimal hwhole hfirst =>
    obtain ⟨c, rest, hc, hfirst⟩ := hfirst
    have hne : c ≠ '_' := by
      have hall : allDigits.all (· != '_') := by decide
      simpa using List.all_eq_true.mp hall c (List.mem_of_mem_filter hc)
    rcases hfirst with rfl | ⟨rfl, rfl⟩
    · refine ⟨c.toLower, cleaned (rest ++ (fraction ++ (exponent ++ imaginary))), ?_,
        toLower_not_sign hc⟩
      simp [cleaned, chars, hne]
    · exact ⟨'.', _, rfl, by decide, by decide⟩

/-- What makes a decimal no integer is no digit. -/
theorem IsRead.exists_mark
    (hparts : ¬ (fraction = [] ∧ exponent = [] ∧ imaginary = [])) :
    ∃ c ∈ chars (.decimal whole fraction exponent imaginary), c ∈ ['.', 'e', 'E', 'j', 'J'] := by
  cases h with
  | decimal hwhole hfirst hfraction hexponent himaginary =>
    simp only [List.mem_cons, List.not_mem_nil, or_false] at himaginary
    rcases hfraction with rfl | ⟨row, rfl, -⟩
    · rcases hexponent with rfl | ⟨mark, sign, row, rfl, hmark, -⟩
      · rcases himaginary with rfl | rfl | rfl
        · exact absurd ⟨rfl, rfl, rfl⟩ hparts
        · exact ⟨'j', by simp [chars], by decide⟩
        · exact ⟨'J', by simp [chars], by decide⟩
      · refine ⟨mark, by simp [chars], ?_⟩
        simp only [List.mem_cons, List.not_mem_nil, or_false] at hmark
        rcases hmark with rfl | rfl <;> decide
    · exact ⟨'.', by simp [chars], by decide⟩

omit h

theorem IsRead.intValue?_eq_none (h : f.IsRead) (hno : ∀ base digits, ¬ f.Writes base digits) :
    intValue? (String.ofList f.chars) = none := by
  cases f with
  | marked base mark row => exact absurd .marked (hno _ _)
  | decimal whole fraction exponent imaginary =>
    have hparts : ¬ (fraction = [] ∧ exponent = [] ∧ imaginary = []) := by
      rintro ⟨rfl, rfl, rfl⟩
      exact hno _ _ .decimal
    obtain ⟨c, hc, hmark⟩ := h.exists_mark hparts
    obtain ⟨first, rest, hcleaned, hplus, hminus⟩ := h.cleaned_eq_cons
    have hall : ['.', 'e', 'E', 'j', 'J'].all fun c =>
        c != '_' && digitValue? 10 c.toLower == none := by decide
    have hnone := List.all_eq_true.mp hall c hmark
    simp only [Bool.and_eq_true, beq_iff_eq] at hnone
    have hmem : c.toLower ∈ first :: rest := by
      rw [← hcleaned]
      exact List.mem_map_of_mem (List.mem_filter.mpr ⟨hc, hnone.1⟩)
    rw [intValue?_chars, splitBase_decimal h.mem_decimalChars, hcleaned,
      signedValue?_cons hplus hminus, digitsValue?_eq_none 0 hmem hnone.2]
    rfl

/-- **There is a value just if the form writes one.** -/
theorem IsRead.intValue?_eq_some_iff (h : f.IsRead) {v : Int} :
    intValue? (String.ofList f.chars) = some v ↔ ∃ n, f.HasValue n ∧ v = Int.ofNat n := by
  constructor
  · intro hv
    by_cases hwrites : ∃ base digits, f.Writes base digits
    · obtain ⟨base, digits, hwrites⟩ := hwrites
      rw [h.intValue?_of_writes hwrites] at hv
      split at hv
      · simp at hv
      · rename_i hne
        split at hv
        · rename_i hlt
          exact ⟨_, ⟨base, digits, hwrites, hne, rfl, hlt⟩, (Option.some.inj hv).symm⟩
        · simp at hv
    · rw [h.intValue?_eq_none fun base digits hw => hwrites ⟨base, digits, hw⟩] at hv
      simp at hv
  · rintro ⟨n, ⟨base, digits, hwrites, hne, rfl, hlt⟩, rfl⟩
    rw [h.intValue?_of_writes hwrites, if_neg hne, if_pos hlt]

end Form

/-! ### Numerals that are scanned -/

theorem mem_of_between {low high : Char} {listed : List Char} (hlow : low ≤ c) (hhigh : c ≤ high)
    (hall : (List.range' low.toNat (high.toNat + 1 - low.toNat)).all
      fun n => listed.contains (Char.ofNat n)) : c ∈ listed := by
  have hmin : low.toNat ≤ c.toNat := UInt32.le_iff_toNat_le.mp hlow
  have hmax : c.toNat ≤ high.toNat := UInt32.le_iff_toNat_le.mp hhigh
  have hc := List.all_eq_true.mp hall c.toNat (List.mem_range'_1.mpr (by omega))
  rw [Char.ofNat_toNat] at hc
  simpa using hc

theorem mem_digitsOf_of_isDigit (h : c.isDigit = true) (hbase : 10 ≤ base) : c ∈ digitsOf base := by
  obtain ⟨hlow, hhigh⟩ : '0' ≤ c ∧ c ≤ '9' :=
    (Bool.and_eq_true_iff.trans (and_congr decide_eq_true_iff decide_eq_true_iff)).mp h
  have hten : c ∈ digitsOf 10 := mem_of_between hlow hhigh (by decide)
  obtain ⟨hmem, hweight⟩ := List.mem_filter.mp hten
  simp only [decide_eq_true_eq] at hweight
  exact List.mem_filter.mpr ⟨hmem, by simp only [decide_eq_true_eq]; omega⟩

theorem isRow_digits (cs : List Char) : IsRow 10 (cs.take (runLength isDigitLike cs)) := by
  intro c hc
  rw [take_runLength] at hc
  have hlike := List.all_eq_true.mp List.all_takeWhile c hc
  simp only [isDigitLike, Bool.or_eq_true, beq_iff_eq] at hlike
  exact hlike.imp (mem_digitsOf_of_isDigit · (Nat.le_refl 10)) id

theorem take_fractionLength (cs : List Char) : cs.take (fractionLength cs) = [] ∨
    ∃ row, cs.take (fractionLength cs) = '.' :: row ∧ IsRow 10 row := by
  unfold fractionLength
  split
  · rename_i cs
    exact Or.inr ⟨_, by rw [Nat.add_comm, List.take_succ_cons], isRow_digits cs⟩
  · exact Or.inl rfl

theorem take_signLength (cs : List Char) : cs.take (signLength cs) ∈ [[], ['+'], ['-']] := by
  cases cs with
  | nil => decide
  | cons c cs =>
    simp only [signLength]
    split
    · rename_i hc
      rcases (by simpa using hc : c = '+' ∨ c = '-') with rfl | rfl <;> simp
    · simp

theorem take_exponentLength (cs : List Char) : cs.take (exponentLength cs) = [] ∨
    ∃ mark sign row, cs.take (exponentLength cs) = mark :: (sign ++ row) ∧ mark ∈ ['e', 'E'] ∧
      sign ∈ [[], ['+'], ['-']] ∧ row ≠ [] ∧ IsRow 10 row := by
  cases cs with
  | nil => exact Or.inl rfl
  | cons c cs =>
    simp only [exponentLength]
    split
    · rename_i hc
      split
      · exact Or.inl rfl
      · rename_i hsome
        refine Or.inr ⟨c, cs.take (signLength cs), (cs.drop (signLength cs)).take
          (runLength isDigitLike (cs.drop (signLength cs))), ?_, by simpa using hc,
          take_signLength cs, ?_, isRow_digits _⟩
        · rw [Nat.add_assoc, Nat.add_comm, List.take_succ_cons, List.take_add]
        · rw [take_runLength]
          exact fun hnil => hsome (by rw [runLength, hnil]; rfl)
    · exact Or.inl rfl

theorem take_imaginaryLength (cs : List Char) :
    cs.take (imaginaryLength cs) ∈ [[], ['j'], ['J']] := by
  cases cs with
  | nil => decide
  | cons c cs =>
    simp only [imaginaryLength]
    split
    · rename_i hc
      rcases (by simpa using hc : c = 'j' ∨ c = 'J') with rfl | rfl <;> simp
    · simp

/-- What is scanned behind a mark is digits of its base. -/
theorem base_of_digitsAfterMark? {mark : Char} {isDigit : Char → Bool}
    (h : digitsAfterMark? mark = some isDigit) :
    ∃ base : Base, mark ∈ base.marks ∧ ∀ c, isDigit c = true →
      c ∈ digitsOf base.value ∨ c = '_' := by
  unfold digitsAfterMark? at h
  split at h
  · rename_i hmark
    cases h
    refine ⟨.hexadecimal, by simpa [Base.marks] using hmark, fun c hc => ?_⟩
    simp only [Bool.or_eq_true, Bool.and_eq_true, decide_eq_true_eq, beq_iff_eq] at hc
    rcases hc with ((hdigit | hsmall) | hcapital) | hunderscore
    · exact Or.inl (mem_digitsOf_of_isDigit hdigit (by decide))
    · exact Or.inl (mem_of_between hsmall.1 hsmall.2 (by decide))
    · exact Or.inl (mem_of_between hcapital.1 hcapital.2 (by decide))
    · exact Or.inr hunderscore
  split at h
  · rename_i hmark
    cases h
    refine ⟨.octal, by simpa [Base.marks] using hmark, fun c hc => ?_⟩
    simp only [Bool.or_eq_true, Bool.and_eq_true, decide_eq_true_eq, beq_iff_eq] at hc
    exact hc.imp (fun hdigit => mem_of_between hdigit.1 hdigit.2 (by decide)) id
  split at h
  · rename_i hmark
    cases h
    refine ⟨.binary, by simpa [Base.marks] using hmark, fun c hc => ?_⟩
    simp only [Bool.or_eq_true, beq_iff_eq] at hc
    rcases hc with (rfl | rfl) | hunderscore
    · exact Or.inl (by decide)
    · exact Or.inl (by decide)
    · exact Or.inr hunderscore
  · cases h

theorem take_inTurn (first second : List Char → Nat) (cs : List Char) :
    cs.take (inTurn first second cs)
      = cs.take (first cs) ++ (cs.drop (first cs)).take (second (cs.drop (first cs))) :=
  List.take_add

/-- **A numeral that is read has one of the two forms.** -/
theorem exists_form {n : Nat} (h : length? cs = some n) :
    ∃ f : Form, f.IsRead ∧ cs.take n = f.chars := by
  rcases length?_cases h with hmarked | ⟨hbegins, rfl⟩
  · obtain ⟨mark, isDigit, rest, rfl, hmark, hsome, rfl⟩ := markedLength?_eq_some_iff.mp hmarked
    obtain ⟨base, hbase, hdigits⟩ := base_of_digitsAfterMark? hmark
    refine ⟨.marked base mark (rest.take (runLength isDigit rest)), .marked hbase ?_ ?_, ?_⟩
    · intro c hc
      rw [take_runLength] at hc
      exact hdigits c (List.all_eq_true.mp List.all_takeWhile c hc)
    · rw [take_runLength]
      exact fun hnil => hsome (by rw [runLength, hnil]; rfl)
    · rw [Nat.add_comm]
      rfl
  · obtain ⟨c, rest, hdigit, hfirst⟩ := beginsDecimal_cases hbegins
    have hc := mem_digitsOf_of_isDigit hdigit (Nat.le_refl 10)
    have hlike : isDigitLike c = true := by simp [isDigitLike, hdigit]
    simp only [wholeLength, take_inTurn, List.append_assoc]
    refine ⟨.decimal _ _ _ _, .decimal (isRow_digits cs) ?_ (take_fractionLength _)
      (take_exponentLength _) (take_imaginaryLength _), rfl⟩
    rcases hfirst with rfl | rfl
    · refine ⟨c, rest.takeWhile isDigitLike, hc, Or.inl ?_⟩
      rw [take_runLength, List.takeWhile_cons_of_pos hlike]
    · refine ⟨c, rest.takeWhile isDigitLike, hc, Or.inr ⟨rfl, ?_⟩⟩
      have hfraction : fractionLength ('.' :: c :: rest)
          = 1 + runLength isDigitLike (c :: rest) := rfl
      have hnone : runLength isDigitLike ('.' :: c :: rest) = 0 := rfl
      rw [hnone, List.drop_zero, hfraction, Nat.add_comm, List.take_succ_cons, take_runLength,
        List.takeWhile_cons_of_pos hlike]

end Numeral

theorem numeral_of_mem_lexemesFrom {offset : Nat} {lexeme : Lexeme} {text : String}
    (h : lexeme ∈ lexemesFrom offset (pieces cs)) (htext : lexeme.token = .number text) :
    ∃ f : Numeral.Form, f.IsRead ∧ text.toList = f.chars := by
  obtain ⟨ahead, n, hread⟩ := readToken?_of_mem_lexemesFrom h
  obtain ⟨hlength, rfl⟩ := (length?_of_readToken? hread text).2 htext
  rw [String.toList_ofList]
  exact Numeral.exists_form hlength

/--
**Integer numerals keep their value.**  Every number token that is scanned in a source is
written in one of the forms of a numeral, and whichever form it is written in, it has the value
`v` just if the form has no fraction, exponent or imaginary part, has a digit that is not an
underscore, and `v` is what these digits write in the base of the form and is less than
`2 ^ 127`.  As a condition the numeral is always true just if it has a value other than zero.
-/
theorem integers_keep_value (source : String) :
    (∀ stream, tokenize source = .ok stream → ∀ lexeme ∈ stream.tokens, ∀ text,
      lexeme.token = .number text → lexeme ∈ lexemesFrom 0 (pieces source.toList)) ∧
    ∀ lexeme ∈ lexemesFrom 0 (pieces source.toList), ∀ text, lexeme.token = .number text →
      (∃ f : Numeral.Form, f.IsRead ∧ text.toList = f.chars) ∧
      ∀ f : Numeral.Form, f.IsRead → text.toList = f.chars →
        (∀ v : Int, intValue? text = some v ↔ ∃ n, f.HasValue n ∧ v = Int.ofNat n) ∧
        ∀ span, (Expr.constant span (.number text)).isAlwaysTrue = true ↔
          ∃ n, f.HasValue n ∧ n ≠ 0 := by
  refine ⟨fun stream h lexeme hlexeme text htext =>
      (tokenize_scanned h hlexeme (by simp [htext, Token.isMark])).1,
    fun lexeme hlexeme text htext => ⟨numeral_of_mem_lexemesFrom hlexeme htext,
      fun f hread hchars => ?_⟩⟩
  have hvalue (v : Int) : intValue? text = some v ↔ ∃ n, f.HasValue n ∧ v = Int.ofNat n := by
    rw [← hread.intValue?_eq_some_iff, ← hchars, String.ofList_toList]
  refine ⟨hvalue, fun span => ?_⟩
  simp only [Expr.isAlwaysTrue, Option.any_eq_true, bne_iff_ne, hvalue]
  constructor
  · rintro ⟨_, ⟨n, hn, rfl⟩, hne⟩
    exact ⟨n, hn, fun hzero => hne (by rw [hzero]; rfl)⟩
  · rintro ⟨n, hn, hne⟩
    exact ⟨Int.ofNat n, ⟨n, hn, rfl⟩, fun hzero => hne (Int.ofNat.inj hzero)⟩

/-- An `e` that is a digit, behind an underscore and a capital mark. -/
theorem integers_keep_value_marked :
    intValue? "0X_1e" = some 30 ∧
      (Expr.constant ⟨0, 5⟩ (.number "0X_1e")).isAlwaysTrue = true := by
  have hnumber := (integers_keep_value "0X_1e").2 ⟨.number "0X_1e", ⟨0, 5⟩⟩ (by decide +kernel)
    "0X_1e" rfl
  have hread : (Numeral.Form.marked .hexadecimal 'X' ['_', '1', 'e']).IsRead := by
    refine .marked (by decide) (fun c hc => ?_) (by decide)
    simp only [List.mem_cons, List.not_mem_nil, or_false] at hc
    rcases hc with rfl | rfl | rfl <;> decide
  have hvalue : (Numeral.Form.marked .hexadecimal 'X' ['_', '1', 'e']).HasValue 30 :=
    ⟨16, ['1', 'e'], .marked, by decide, by decide, by decide⟩
  obtain ⟨hsome, htrue⟩ := hnumber.2 _ hread rfl
  exact ⟨(hsome 30).mpr ⟨30, hvalue, rfl⟩, (htrue _).mpr ⟨30, hvalue, by decide⟩⟩

end Scrutiny
