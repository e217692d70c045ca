/-
Line numbers count the newlines before an offset.

A line table is made from characters and asked about bytes.  The bytes of a text are those of
its characters in UTF-8, and only the newline has a byte 10 in it
(`mem_utf8EncodeChar_iff`), so that the line starts up to an offset are as many as the newline
bytes before it, wherever the offset falls.  Between characters the position says more: it
tells any two places apart, in their order (`LineTable.position_lt`).
-/
import Scrutiny.Proofs.Report.Underline

namespace Scrutiny

/-- The bytes of a text in UTF-8. -/
def utf8Bytes (cs : List Char) : List UInt8 := cs.flatMap String.utf8EncodeChar

/-- Line by line, and from left to right on a line. -/
def Position.Before (p q : Position) : Prop :=
  p.line < q.line ∨ p.line = q.line ∧ p.column < q.column

/-! ### Newline bytes -/

/-- A byte 10 is a newline and never a part of another character. -/
theorem mem_utf8EncodeChar_iff {c : Char} : (10 : UInt8) ∈ String.utf8EncodeChar c ↔ c = '\n' := by
  constructor
  · intro h
    have hbyte (n : Nat) : (10 : UInt8) = UInt8.ofNat n ↔ n % 256 = 10 := by
      rw [← UInt8.toNat_inj, UInt8.toNat_ofNat', eq_comm]
      rfl
    have hval : c.val.toNat = 10 := by
      -- A lead byte is at least 192 and a trailing one at least 128.
      simp only [String.utf8EncodeChar] at h
      split_ifs at h <;> simp only [List.mem_cons, List.not_mem_nil, or_false, hbyte] at h <;> omega
    exact Char.ext (UInt32.toNat_inj.mp hval)
  · rintro rfl
    decide

theorem countP_startsAfterNewlines (base stop : Nat) (cs : List Char) :
    (startsAfterNewlines base cs).countP (· ≤ stop)
      = ((utf8Bytes cs).take (stop - base)).count 10 := by
  induction cs generalizing base with
  | nil => simp [startsAfterNewlines, utf8Bytes]
  | cons c cs ih =>
    have hbytes : (utf8Bytes (c :: cs)).take (stop - base)
        = (String.utf8EncodeChar c).take (stop - base)
          ++ (utf8Bytes cs).take (stop - (base + c.utf8Size)) := by
      rw [utf8Bytes, List.flatMap_cons, List.take_append, String.length_utf8EncodeChar, Nat.sub_sub]
      rfl
    rw [hbytes, List.count_append, ← ih]
    simp only [startsAfterNewlines]
    by_cases hc : c = '\n'
    · subst hc
      have hstart : ((String.utf8EncodeChar '\n').take (stop - base)).count 10
          = if base + 1 ≤ stop then 1 else 0 := by
        split
        · rw [List.take_of_length_le (by rw [String.length_utf8EncodeChar]; show 1 ≤ _; omega)]
          decide
        · rw [show stop - base = 0 by omega]
          rfl
      have hnewline : ('\n' : Char).utf8Size = 1 := rfl
      simp only [if_true, List.countP_cons, hstart, hnewline, decide_eq_true_eq]
      exact Nat.add_comm _ _
    · have hnone : ((String.utf8EncodeChar c).take (stop - base)).count 10 = 0 :=
        List.count_eq_zero_of_not_mem fun h =>
          hc (mem_utf8EncodeChar_iff.mp (List.mem_of_mem_take h))
      rw [if_neg hc, hnone, Nat.zero_add]

namespace LineTable

theorem line_eq_newlines (cs : List Char) (offset : Nat) : (ofText cs).line offset
      = 1 + ((utf8Bytes cs).take (min offset (byteLength cs))).count 10 := by
  rw [line_eq_countP, ofText, List.countP_cons_of_pos (by simp), countP_startsAfterNewlines,
    Nat.sub_zero, Nat.add_comm]

/-! ### Positions in order -/

/-- The position of a place is told by the lines before it and what stands on its own. -/
theorem position_between {earlier head : List Char} (hearlier : earlier = [] ∨ EndsLine earlier)
    (hhead : '\n' ∉ head) (after : List Char) :
    (ofText (earlier ++ head ++ after)).position (earlier ++ head ++ after)
        (byteLength (earlier ++ head))
      = ⟨earlier.count '\n' + 1, head.length + 1⟩ := by
  rcases hearlier with rfl | hearlier
  · exact position_head hhead after
  · rw [List.append_assoc, byteLength_append, Nat.add_comm, position_shift hearlier,
      position_head hhead]
    simp [Nat.add_comm]

/-- **A place further on has a later position.** -/
theorem position_lt {before between : List Char} (hne : between ≠ []) (after : List Char) :
    ((ofText (before ++ between ++ after)).position (before ++ between ++ after)
      (byteLength before)).Before
      ((ofText (before ++ between ++ after)).position (before ++ between ++ after)
        (byteLength (before ++ between))) := by
  by_cases hnewline : '\n' ∈ between
  · refine Or.inl ?_
    show line _ _ < line _ _
    have hcount := List.count_pos_iff.mpr hnewline
    rw [line_between, List.append_assoc, line_between, List.count_append]
    omega
  · obtain ⟨earlier, head, rfl, hhead, hearlier⟩ := exists_line_head before
    have hfirst := position_between hearlier hhead (between ++ after)
    have hline : '\n' ∉ head ++ between := by simp [hhead, hnewline]
    have hsecond := position_between hearlier hline after
    simp only [List.append_assoc] at hfirst hsecond ⊢
    rw [hfirst, hsecond]
    have hlength := List.length_pos_iff.mpr hne
    refine Or.inr ⟨rfl, ?_⟩
    simp only [List.length_append]
    omega

/-- **Line numbers and positions of a text.**  The line of any offset, past the end or inside a
character too, is one more than the newline bytes before it, and is the number of a line, whose
start is in the table; of two places between characters the one further on has the later
position. -/
theorem line_correct (cs : List Char) : (∀ offset, (ofText cs).line offset
          = 1 + ((utf8Bytes cs).take (min offset (byteLength cs))).count 10 ∧
        1 ≤ (ofText cs).line offset ∧ (ofText cs).line offset ≤ (ofText cs).lineCount ∧
        (ofText cs).line offset - 1 < (ofText cs).starts.length) ∧
    ∀ first second, CharBoundary cs first → CharBoundary cs second → first < second →
      second ≤ byteLength cs →
        ((ofText cs).position cs first).Before ((ofText cs).position cs second) := by
  constructor
  · intro offset
    have hpos := line_pos cs offset
    have hle : (ofText cs).line offset ≤ (ofText cs).lineCount := line_le_length _ offset
    refine ⟨line_eq_newlines cs offset, hpos, hle, ?_⟩
    show _ < (ofText cs).lineCount
    omega
  · rintro first second ⟨before, behind, rfl, rfl⟩ ⟨further, after, hcut, rfl⟩ hlt -
    obtain ⟨between, rfl⟩ := prefix_of_byteLength_le hcut hlt.le
    have hne : between ≠ [] := by
      rintro rfl
      simp at hlt
    rw [List.append_assoc, List.append_cancel_left_eq] at hcut
    subst hcut
    simpa only [List.append_assoc] using position_lt hne after

/-- Offset 1 is inside the first character, and the newline is byte 2. -/
theorem line_correct_accented :
    (ofText ['é', '\n', 'b']).line 1 = 1 + ((utf8Bytes ['é', '\n', 'b']).take (min 1 4)).count 10 ∧
      ((ofText ['é', '\n', 'b']).position ['é', '\n', 'b'] 2).Before
        ((ofText ['é', '\n', 'b']).position ['é', '\n', 'b'] 3) :=
  have h := line_correct ['é', '\n', 'b']
  ⟨(h.1 1).1,
    h.2 2 3 ⟨['é'], ['\n', 'b'], rfl, rfl⟩ ⟨['é', '\n'], ['b'], rfl, rfl⟩ (by decide) (by decide)⟩

end LineTable

end Scrutiny
