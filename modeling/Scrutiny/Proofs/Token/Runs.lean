/-
Readings that stay in a run of characters.

How far a word or a numeral reaches is decided by the run of characters that may stand in one:
what is behind the run is neither taken nor looked at, and what is read is read again where
the text breaks off behind it (`Confined`, `Confines`).  Numerals are read in turns, each from
where the last one stopped, and turns stay in a run that each of them stays in
(`Confined.inTurn`).

So two texts with the same run at the front are read alike (`Confines.congr`), whatever ends
the run: more lines, a space, or a line end of the other kind.
-/
import Mathlib.Data.List.Basic
import Scrutiny.Token.Scan

namespace Scrutiny

variable {c : Char} {n : Nat}

variable {p q : Char → Bool} {cs text after other : List Char}

/-! ### Runs -/

theorem take_runLength (p : Char → Bool) (cs : List Char) :
    cs.take (runLength p cs) = cs.takeWhile p :=
  (List.prefix_iff_eq_take.mp (List.takeWhile_prefix p)).symm

theorem drop_runLength (p : Char → Bool) (cs : List Char) :
    cs.drop (runLength p cs) = cs.dropWhile p := by
  have hsplit : cs.takeWhile p ++ cs.dropWhile p = cs := List.takeWhile_append_dropWhile
  calc cs.drop (runLength p cs)
      = (cs.takeWhile p ++ cs.dropWhile p).drop (cs.takeWhile p).length := by
        rw [hsplit, runLength]
    _ = cs.dropWhile p := List.drop_left

theorem runLength_cons_pos (hc : p c = true) (cs : List Char) : 0 < runLength p (c :: cs) := by
  simp [runLength, hc]

theorem runLength_le (p : Char → Bool) (cs : List Char) : runLength p cs ≤ cs.length :=
  (List.takeWhile_prefix p).length_le

theorem runLength_append (htext : ∀ c ∈ text, p c = true) (rest : List Char) :
    runLength p (text ++ rest) = text.length + runLength p rest := by
  rw [runLength, List.takeWhile_append_of_pos htext, List.length_append, runLength]

/-- A run ends before a character of another kind. -/
theorem runLength_of_head {rest : List Char} (htext : ∀ c ∈ text, p c = true)
    (hrest : ∀ c ∈ rest.head?, p c = false) : runLength p (text ++ rest) = text.length := by
  rw [runLength_append htext]
  cases rest with
  | nil => rfl
  | cons c rest => simp [runLength, hrest c rfl]

theorem runLength_take (p : Char → Bool) (cs : List Char) (k : Nat) :
    runLength p (cs.take k) = min k (runLength p cs) := by
  rw [runLength, ← List.take_takeWhile, List.length_take]
  rfl

/-- What is taken of a run leaves the rest of it. -/
theorem runLength_drop (h : n ≤ runLength p cs) : runLength p (cs.drop n) = runLength p cs - n := by
  induction n generalizing cs with
  | zero => rfl
  | succ n ih =>
    cases cs with
    | nil => simp [runLength] at h
    | cons c cs =>
      by_cases hc : p c = true
      · have hcons : runLength p (c :: cs) = runLength p cs + 1 := by simp [runLength, hc]
        rw [hcons] at h ⊢
        rw [List.drop_succ_cons, ih (by omega)]
        omega
      · simp [runLength, hc] at h

theorem runLength_mono (h : ∀ c, q c = true → p c = true) (cs : List Char) :
    runLength q cs ≤ runLength p cs := by
  induction cs with
  | nil => exact Nat.le_refl 0
  | cons c cs ih =>
    by_cases hc : q c = true
    · simpa [runLength, hc, h c hc] using ih
    · simp [runLength, hc]

/-- A run ends before a newline, whatever comes after that. -/
theorem takeWhile_append_of_newline (hp : p '\n' = false) (hcs : '\n' ∈ cs) (after : List Char) :
    (cs ++ after).takeWhile p = cs.takeWhile p := by
  obtain ⟨before, rest, rfl⟩ := List.append_of_mem hcs
  induction before with
  | nil => simp [hp]
  | cons c before ih =>
    by_cases hc : p c = true
    · simpa [hc] using ih (by simp)
    · simp [hc]

/-! ### Readings in a run -/

/-- A reading takes characters of the run at the front, and the same ones if the text breaks
off behind them. -/
structure Confined (p : Char → Bool) (read : List Char → Nat) : Prop where
  within (cs : List Char) : read cs ≤ runLength p cs
  cut {cs : List Char} {k : Nat} (hk : read cs ≤ k) : read (cs.take k) = read cs

/-- The same for a reading that may find nothing. -/
structure Confines (p : Char → Bool) (read? : List Char → Option Nat) : Prop where
  within {cs : List Char} {n : Nat} (h : read? cs = some n) : n ≤ runLength p cs
  cut {cs : List Char} {k : Nat} (hk : ∀ n ∈ read? cs, n ≤ k) : read? (cs.take k) = read? cs

/-- One reading, and another from where it stopped. -/
def inTurn (first second : List Char → Nat) (cs : List Char) : Nat :=
  first cs + second (cs.drop (first cs))

namespace Confined

theorem run (h : ∀ c, q c = true → p c = true) : Confined p (runLength q) where
  within := runLength_mono h
  cut hk := by rw [runLength_take, Nat.min_eq_right hk]

theorem inTurn {first second : List Char → Nat} (hfirst : Confined p first)
    (hsecond : Confined p second) : Confined p (inTurn first second) where
  within cs := by
    have hle := hfirst.within cs
    have hless := hsecond.within (cs.drop (first cs))
    rw [runLength_drop hle] at hless
    unfold Scrutiny.inTurn
    omega
  cut {cs k} hk := by
    unfold Scrutiny.inTurn at hk ⊢
    rw [hfirst.cut (by omega), List.drop_take, hsecond.cut (by omega)]

/-- One character, and another reading behind it. -/
theorem cons {read tail : List Char → Nat} (htail : Confined p tail)
    (hq : ∀ c, q c = true → p c = true) (hnil : read [] = 0)
    (hcons : ∀ c cs, read (c :: cs) = if q c then 1 + tail cs else 0) : Confined p read where
  within cs := by
    cases cs with
    | nil => simp [hnil]
    | cons c cs =>
      rw [hcons]
      split
      · rename_i hc
        have hrun : runLength p (c :: cs) = runLength p cs + 1 := by simp [runLength, hq c hc]
        have hle := htail.within cs
        omega
      · exact Nat.zero_le _
  cut {cs k} hk := by
    cases cs with
    | nil => simp
    | cons c cs =>
      cases k with
      | zero => rw [List.take_zero, hnil, Nat.le_zero.mp hk]
      | succ k =>
        rw [hcons] at hk
        rw [List.take_succ_cons, hcons, hcons]
        split
        · rename_i hc
          rw [if_pos hc] at hk
          rw [htail.cut (by omega)]
        · rfl

theorem zero : Confined p fun _ => 0 := ⟨fun _ => Nat.zero_le _, fun _ => rfl⟩

end Confined

namespace Confines

variable {read? : List Char → Option Nat} {n : Nat}

/-- A reading that is made where the text begins as it has to. -/
theorem guarded {begins : List Char → Bool} {read : List Char → Nat} (h : Confined p read)
    (hbegins : ∀ cs k, (begins cs = true → read cs ≤ k) → begins (cs.take k) = begins cs) :
    Confines p fun cs => if begins cs then some (read cs) else none where
  within {cs n} hread := by
    split at hread
    · exact Option.some.inj hread ▸ h.within cs
    · cases hread
  cut {cs k} hk := by
    have hfits (hcs : begins cs = true) : read cs ≤ k := hk _ (by rw [if_pos hcs]; rfl)
    rw [hbegins cs k hfits]
    split
    · rename_i hcs
      rw [h.cut (hfits hcs)]
    · rfl

theorem or {other? : List Char → Option Nat} (h : Confines p read?) (hother : Confines p other?) :
    Confines p fun cs => (read? cs).or (other? cs) where
  within {cs n} hread := by
    rcases Option.or_eq_some_iff.mp hread with hread | ⟨-, hread⟩
    · exact h.within hread
    · exact hother.within hread
  cut {cs k} hk := by
    rw [h.cut fun n hn => hk n (by simp [Option.mem_def.mp hn])]
    cases hread : read? cs with
    | some n => rfl
    | none =>
      rw [Option.none_or, Option.none_or, hother.cut fun n hn => hk n ?_]
      simpa [hread] using hn

variable (h : Confines p read?)

include h

/-- **What is behind the run does not matter.** -/
theorem congr {ds : List Char} (hrun : cs.takeWhile p = ds.takeWhile p) : read? cs = read? ds := by
  have hself (cs : List Char) : read? (cs.takeWhile p) = read? cs := by
    rw [← take_runLength, h.cut fun n hn => h.within hn]
  rw [← hself cs, hrun, hself]

theorem append (hp : p '\n' = false) (hcs : '\n' ∈ cs) (after : List Char) :
    read? (cs ++ after) = read? cs :=
  h.congr (takeWhile_append_of_newline hp hcs after)

theorem mem_take (hread : read? cs = some n) (hc : c ∈ cs.take n) : p c = true := by
  have htake : cs.take n = (cs.takeWhile p).take n := by
    rw [← take_runLength, List.take_take, Nat.min_eq_left (h.within hread)]
  rw [htake] at hc
  exact List.all_eq_true.mp List.all_takeWhile c (List.mem_of_mem_take hc)

theorem le (hread : read? cs = some n) : n ≤ cs.length :=
  Nat.le_trans (h.within hread) (runLength_le p cs)

/-- What was read is read again if something else ends the run there. -/
theorem apart (hread : read? (text ++ after) = some text.length)
    (hother : ∀ c ∈ other.head?, p c = false) : read? (text ++ other) = some text.length := by
  have htext : ∀ c ∈ text, p c = true := by
    intro c hc
    refine h.mem_take hread ?_
    rwa [List.take_left]
  have hself : read? text = some text.length := by
    have hcut : read? ((text ++ after).take text.length) = some text.length := by
      rw [h.cut (by simp [hread]), hread]
    rwa [List.take_left] at hcut
  rw [← hself]
  refine h.congr ?_
  have hrun (rest : List Char) (hrest : rest.takeWhile p = []) :
      (text ++ rest).takeWhile p = text := by
    rw [List.takeWhile_append_of_pos htext, hrest, List.append_nil]
  have hnone : other.takeWhile p = [] := by
    cases other with
    | nil => rfl
    | cons c other => simp [hother c rfl]
  rw [hrun other hnone]
  simpa using (hrun [] rfl).symm

end Confines

/-! ### Words -/

/-- Whether `c` may stand in a word. -/
def isWordPart (c : Char) : Bool := startsIdentifier c || continuesIdentifier c

theorem wordLength?_confines : Confines isWordPart wordLength? := by
  have hread : wordLength? = fun cs => if cs.head?.any startsIdentifier then
      some (cs.head?.elim 0 fun c => if startsIdentifier c then
        1 + runLength continuesIdentifier cs.tail else 0) else none := by
    funext cs
    cases cs with
    | nil => rfl
    | cons c cs =>
      by_cases hc : startsIdentifier c = true
      · simp [wordLength?, hc]
      · simp [wordLength?, hc]
  rw [hread]
  refine .guarded (.cons (.run (q := continuesIdentifier) ?_) (q := startsIdentifier) ?_ rfl
    fun c cs => rfl) fun cs k hk => ?_
  · simp +contextual [isWordPart]
  · simp +contextual [isWordPart]
  · cases cs with
    | nil => simp
    | cons c cs =>
      cases k with
      | zero =>
        by_cases hc : startsIdentifier c = true
        · simp [hc] at hk
        · simp [hc]
      | succ k => rfl

/-! ### Numerals -/

namespace Numeral

/-- Whether `c` may stand in a numeral. -/
def isPart (c : Char) : Bool :=
  c.isAlphanum || c == '_' || c == '.' || c == '+' || c == '-'

theorem isPart_iff : isPart c = true ↔
    ('A' ≤ c ∧ c ≤ 'Z') ∨ ('a' ≤ c ∧ c ≤ 'z') ∨ ('0' ≤ c ∧ c ≤ '9') ∨ c ∈ ['_', '.', '+', '-'] := by
  have hupper : c.isUpper = true ↔ 'A' ≤ c ∧ c ≤ 'Z' := decide_eq_true_iff
  have hlower : c.isLower = true ↔ 'a' ≤ c ∧ c ≤ 'z' :=
    Bool.and_eq_true_iff.trans (and_congr decide_eq_true_iff decide_eq_true_iff)
  have hdigit : c.isDigit = true ↔ '0' ≤ c ∧ c ≤ '9' :=
    Bool.and_eq_true_iff.trans (and_congr decide_eq_true_iff decide_eq_true_iff)
  have halnum : c.isAlphanum = (c.isUpper || c.isLower || c.isDigit) := rfl
  simp only [isPart, halnum, Bool.or_eq_true, beq_iff_eq, hupper, hlower, hdigit, List.mem_cons,
    List.not_mem_nil, or_false, or_assoc]

theorem isPart_of_isDigitLike (h : isDigitLike c = true) : isPart c = true := by
  simp only [isDigitLike, Bool.or_eq_true] at h
  rcases h with hdigit | hunderscore
  · simp [isPart, Char.isAlphanum, hdigit]
  · simp [isPart, hunderscore]

/-- All that stands between two digits, or two letters of one case, may. -/
theorem isPart_of_le {low high : Char} (hlow : low ≤ c) (hhigh : c ≤ high)
    (hrange : '0' ≤ low ∧ high ≤ '9' ∨ 'A' ≤ low ∧ high ≤ 'Z' ∨ 'a' ≤ low ∧ high ≤ 'z') :
    isPart c = true := by
  rw [isPart_iff]
  rcases hrange with h | h | h
  · exact .inr (.inr (.inl ⟨Char.le_trans h.1 hlow, Char.le_trans hhigh h.2⟩))
  · exact .inl ⟨Char.le_trans h.1 hlow, Char.le_trans hhigh h.2⟩
  · exact .inr (.inl ⟨Char.le_trans h.1 hlow, Char.le_trans hhigh h.2⟩)

theorem isPart_of_eq {one other : Char} (hc : (c == one || c == other) = true)
    (hone : isPart one = true) (hother : isPart other = true) : isPart c = true := by
  rcases (by simpa using hc : c = one ∨ c = other) with rfl | rfl
  · exact hone
  · exact hother

/-- A base mark may stand in a numeral, and so may the digits behind it. -/
theorem isPart_of_digitsAfterMark? {mark : Char} {isDigit : Char → Bool}
    (h : digitsAfterMark? mark = some isDigit) :
    isPart mark = true ∧ ∀ c, isDigit c = true → isPart c = true := by
  have hlike {c : Char} (hc : c.isDigit = true ∨ (c == '_') = true) : isPart c = true :=
    isPart_of_isDigitLike (by simpa [isDigitLike] using hc)
  unfold digitsAfterMark? at h
  split at h
  · rename_i hmark
    cases h
    refine ⟨isPart_of_eq hmark (by decide) (by decide), fun c hc => ?_⟩
    simp only [Bool.or_eq_true, Bool.and_eq_true, decide_eq_true_eq] at hc
    rcases hc with ((hdigit | hletter) | hletter) | hunderscore
    · exact hlike (Or.inl hdigit)
    · exact isPart_of_le hletter.1 hletter.2 (by decide)
    · exact isPart_of_le hletter.1 hletter.2 (by decide)
    · exact hlike (Or.inr hunderscore)
  split at h
  · rename_i hmark
    cases h
    refine ⟨isPart_of_eq hmark (by decide) (by decide), fun c hc => ?_⟩
    simp only [Bool.or_eq_true, Bool.and_eq_true, decide_eq_true_eq] at hc
    rcases hc with hdigit | hunderscore
    · exact isPart_of_le hdigit.1 hdigit.2 (by decide)
    · exact hlike (Or.inr hunderscore)
  split at h
  · rename_i hmark
    cases h
    refine ⟨isPart_of_eq hmark (by decide) (by decide), fun c hc => ?_⟩
    simp only [Bool.or_eq_true, beq_iff_eq] at hc
    rcases hc with (rfl | rfl) | rfl <;> decide
  · cases h

theorem digits_confined : Confined isPart (runLength isDigitLike) :=
  .run fun _ => isPart_of_isDigitLike

theorem fractionLength_confined : Confined isPart fractionLength := by
  refine .cons digits_confined (q := (· == '.')) ?_ rfl fun c cs => ?_
  · intro c hc
    obtain rfl : c = '.' := by simpa using hc
    decide
  · by_cases hc : c = '.'
    · subst hc
      rfl
    · simp [fractionLength, hc]

theorem signLength_confined : Confined isPart signLength :=
  .cons .zero (fun _ hc => isPart_of_eq hc (by decide) (by decide)) rfl fun _ _ => rfl

theorem imaginaryLength_confined : Confined isPart imaginaryLength :=
  .cons .zero (fun _ hc => isPart_of_eq hc (by decide) (by decide)) rfl fun _ _ => rfl

theorem signLength_le (cs : List Char) : signLength cs ≤ 1 := by
  unfold signLength
  split
  · split <;> omega
  · omega

/-- The sign of an exponent and its digits are taken if there are digits. -/
theorem exponentLength_confined : Confined isPart exponentLength where
  within cs := by
    cases cs with
    | nil => exact Nat.zero_le _
    | cons c cs =>
      simp only [exponentLength]
      split
      · rename_i hc
        have hrun : runLength isPart (c :: cs) = runLength isPart cs + 1 := by
          simp [runLength, isPart_of_eq hc (by decide) (by decide)]
        have hle := (signLength_confined.inTurn digits_confined).within cs
        unfold inTurn at hle
        split <;> omega
      · exact Nat.zero_le _
  cut {cs k} hk := by
    cases cs with
    | nil => simp
    | cons c cs =>
      cases k with
      | zero => rw [List.take_zero, Nat.le_zero.mp hk]; rfl
      | succ k =>
        have hsign (hle : signLength cs ≤ k) :
            runLength isDigitLike ((cs.take k).drop (signLength (cs.take k)))
              = min (k - signLength cs) (runLength isDigitLike (cs.drop (signLength cs))) := by
          rw [signLength_confined.cut hle, List.drop_take, runLength_take]
        simp only [List.take_succ_cons, exponentLength] at hk ⊢
        split
        · rename_i hc
          rw [if_pos hc] at hk
          by_cases hdigits : runLength isDigitLike (cs.drop (signLength cs)) = 0
          · rw [if_pos hdigits, if_pos]
            by_cases hle : signLength cs ≤ k
            · rw [hsign hle, hdigits, Nat.min_zero]
            · have hone := signLength_le cs
              obtain rfl : k = 0 := by omega
              rfl
          · rw [if_neg hdigits] at hk
            have hrun := hsign (by omega)
            rw [Nat.min_eq_right (by omega)] at hrun
            rw [hrun, if_neg hdigits, if_neg hdigits, signLength_confined.cut (by omega)]
        · rfl

/-- A decimal: digits, a fraction, an exponent and a suffix, in turn. -/
def wholeLength : List Char → Nat :=
  inTurn (inTurn (inTurn (runLength isDigitLike) fractionLength) exponentLength) imaginaryLength

theorem wholeLength_confined : Confined isPart wholeLength :=
  ((digits_confined.inTurn fractionLength_confined).inTurn exponentLength_confined).inTurn
    imaginaryLength_confined

/-- A digit, or a point and a digit. -/
def beginsDecimal : List Char → Bool
  | c :: rest => c.isDigit || c == '.' && rest.head?.any Char.isDigit
  | [] => false

theorem beginsDecimal_cases (h : beginsDecimal cs = true) :
    ∃ c rest, c.isDigit = true ∧ (cs = c :: rest ∨ cs = '.' :: c :: rest) := by
  match cs with
  | [] => cases h
  | c :: rest =>
    rcases Bool.or_eq_true_iff.mp h with hdigit | hpoint
    · exact ⟨c, rest, hdigit, Or.inl rfl⟩
    · obtain ⟨hc, hnext⟩ := Bool.and_eq_true_iff.mp hpoint
      obtain rfl : c = '.' := by simpa using hc
      cases rest with
      | nil => cases hnext
      | cons d rest => exact ⟨d, rest, by simpa using hnext, Or.inr rfl⟩

/-- A decimal that begins with its point has no digits before it. -/
theorem decimalLength?_eq (cs : List Char) :
    decimalLength? cs = if beginsDecimal cs then some (wholeLength cs) else none := by
  match cs with
  | [] => rfl
  | c :: rest =>
    simp only [decimalLength?]
    by_cases hdigit : c.isDigit = true
    · have hbegins : beginsDecimal (c :: rest) = true := by simp [beginsDecimal, hdigit]
      rw [if_pos hdigit, if_pos hbegins]
      rfl
    · have hbegins : beginsDecimal (c :: rest) = (c == '.' && rest.head?.any Char.isDigit) := by
        simp [beginsDecimal, hdigit]
      rw [if_neg hdigit, hbegins]
      split
      · rename_i hpoint
        obtain rfl : c = '.' := by simpa using (Bool.and_eq_true_iff.mp hpoint).1
        have hnone : runLength isDigitLike ('.' :: rest) = 0 := rfl
        simp only [wholeLength, inTurn, withTail, hnone, Nat.zero_add, List.drop_zero]
      · rfl

/-- The digit that a decimal begins with is taken, and so is a point before it. -/
theorem le_wholeLength (hc : c.isDigit = true) (rest : List Char) :
    1 ≤ wholeLength (c :: rest) ∧ 2 ≤ wholeLength ('.' :: c :: rest) := by
  have hrun : 0 < runLength isDigitLike (c :: rest) :=
    runLength_cons_pos (by simp [isDigitLike, hc]) rest
  have hnone : runLength isDigitLike ('.' :: c :: rest) = 0 := rfl
  have hfraction : fractionLength ('.' :: c :: rest) = 1 + runLength isDigitLike (c :: rest) := rfl
  simp only [wholeLength, inTurn, hnone, List.drop_zero, hfraction]
  omega

theorem decimalLength?_confines : Confines isPart decimalLength? := by
  rw [funext decimalLength?_eq]
  refine .guarded wholeLength_confined fun cs k hk => ?_
  by_cases hbegins : beginsDecimal cs = true
  · have hle := hk hbegins
    obtain ⟨c, rest, hc, rfl | rfl⟩ := beginsDecimal_cases hbegins
    · have hone := (le_wholeLength hc rest).1
      obtain ⟨k, rfl⟩ : ∃ j, k = j + 1 := ⟨k - 1, by omega⟩
      simp [beginsDecimal, hc]
    · have htwo := (le_wholeLength hc rest).2
      obtain ⟨k, rfl⟩ : ∃ j, k = j + 2 := ⟨k - 2, by omega⟩
      simp [beginsDecimal, hc]
  · match cs, k with
    | [], _ => simp
    | c :: rest, 0 => exact (Bool.eq_false_iff.mpr hbegins).symm
    | [c], k + 1 => simp
    | c :: d :: rest, 1 =>
      rw [Bool.eq_false_iff.mpr hbegins]
      simp only [beginsDecimal, Bool.or_eq_true, not_or] at hbegins
      simp [beginsDecimal, hbegins.1]
    | c :: d :: rest, k + 2 => rfl

/-- What the marked reading takes. -/
theorem markedLength?_eq_some_iff : markedLength? cs = some n ↔
    ∃ mark isDigit rest, cs = '0' :: mark :: rest ∧ digitsAfterMark? mark = some isDigit ∧
      runLength isDigit rest ≠ 0 ∧ n = 2 + runLength isDigit rest := by
  constructor
  · intro h
    unfold markedLength? at h
    split at h
    · rename_i mark rest
      split at h
      · rename_i isDigit hmark
        simp only at h
        split at h
        · cases h
        · rename_i hsome
          exact ⟨mark, isDigit, rest, rfl, hmark, hsome, (Option.some.inj h).symm⟩
      · cases h
    · cases h
  · rintro ⟨mark, isDigit, rest, rfl, hmark, hsome, rfl⟩
    simp [markedLength?, hmark, hsome]

theorem markedLength?_confines : Confines isPart markedLength? where
  within h := by
    obtain ⟨mark, isDigit, rest, rfl, hmark, -, rfl⟩ := markedLength?_eq_some_iff.mp h
    obtain ⟨hpart, hdigits⟩ := isPart_of_digitsAfterMark? hmark
    have hzero : isPart '0' = true := by decide
    have hrun : runLength isPart ('0' :: mark :: rest) = 2 + runLength isPart rest := by
      simp only [runLength, List.takeWhile_cons_of_pos hzero, List.takeWhile_cons_of_pos hpart,
        List.length_cons]
      omega
    have hle := runLength_mono hdigits rest
    omega
  cut {cs k} hk := by
    cases hread : markedLength? cs with
    | some n =>
      have hle := hk n hread
      obtain ⟨mark, isDigit, rest, rfl, hmark, hsome, rfl⟩ := markedLength?_eq_some_iff.mp hread
      obtain ⟨k, rfl⟩ : ∃ j, k = j + 2 := ⟨k - 2, by omega⟩
      have hrun : runLength isDigit (rest.take k) = runLength isDigit rest := by
        rw [runLength_take, Nat.min_eq_right (by omega)]
      exact markedLength?_eq_some_iff.mpr
        ⟨mark, isDigit, rest.take k, rfl, hmark, by rwa [hrun], by rw [hrun]⟩
    | none =>
      -- More digits would still be digits.
      cases hcut : markedLength? (cs.take k) with
      | none => rfl
      | some n =>
        obtain ⟨mark, isDigit, rest, htake, hmark, hsome, -⟩ := markedLength?_eq_some_iff.mp hcut
        have hcs : cs = '0' :: mark :: (rest ++ cs.drop k) := by
          conv_lhs => rw [← List.take_append_drop k cs, htake]
          rfl
        have hmore : runLength isDigit (rest ++ cs.drop k) ≠ 0 := by
          have hrun := runLength_take isDigit (rest ++ cs.drop k) rest.length
          rw [List.take_left] at hrun
          omega
        have hsome := markedLength?_eq_some_iff.mpr ⟨mark, isDigit, _, hcs, hmark, hmore, rfl⟩
        rw [hread] at hsome
        cases hsome

theorem length?_eq (cs : List Char) : length? cs = (markedLength? cs).or (decimalLength? cs) := by
  simp only [length?, Option.orElse_eq_or]

theorem length?_confines : Confines isPart length? := by
  rw [funext length?_eq]
  exact markedLength?_confines.or decimalLength?_confines

/-- A numeral is digits behind a base mark, or a decimal. -/
theorem length?_cases (h : length? cs = some n) :
    markedLength? cs = some n ∨ beginsDecimal cs = true ∧ n = wholeLength cs := by
  rw [length?_eq, Option.or_eq_some_iff, decimalLength?_eq] at h
  refine h.imp_right fun ⟨_, hdecimal⟩ => ?_
  split at hdecimal
  · rename_i hbegins
    exact ⟨hbegins, (Option.some.inj hdecimal).symm⟩
  · cases hdecimal

theorem length?_pos (h : length? cs = some n) : 0 < n := by
  rcases length?_cases h with hmarked | ⟨hbegins, rfl⟩
  · obtain ⟨mark, isDigit, rest, -, -, -, rfl⟩ := markedLength?_eq_some_iff.mp hmarked
    omega
  · obtain ⟨c, rest, hc, rfl | rfl⟩ := beginsDecimal_cases hbegins
    · exact (le_wholeLength hc rest).1
    · have htwo := (le_wholeLength hc rest).2
      omega

end Numeral

end Scrutiny
