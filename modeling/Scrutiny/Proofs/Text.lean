/-
Offsets and lines of a text that is given in parts.

A place in a text is most easily said by what stands before it.  The lemmas here
carry that over to byte offsets: cutting a text at the size of its first part gives
the parts back, a span between two such offsets covers what stands between them,
and the line number grows with the offset, strictly so over a newline.

Lines are looked up by halves.  Whether or not a line starts at the offset, what is found
is how many lines start up to there (`LineTable.line_eq_countP`), and every other proof
about lines goes by this count.
-/
import Mathlib.Data.List.Basic
import Mathlib.Data.List.GetD
import Mathlib.Data.List.Induction
import Scrutiny.Text.Lines

namespace Scrutiny

/-! ### Cutting at an offset -/

theorem byteLength_pos {cs : List Char} (hne : cs ≠ []) : 0 < byteLength cs := by
  cases cs with
  | nil => exact absurd rfl hne
  | cons c cs =>
    have := c.utf8Size_pos
    simp only [byteLength_cons]
    omega

theorem splitAtByte?_append (before after : List Char) :
    splitAtByte? (byteLength before) (before ++ after) = some (before, after) := by
  induction before with
  | nil => simp [splitAtByte?]
  | cons c cs ih =>
    obtain ⟨n, hn⟩ : ∃ n, byteLength (c :: cs) = n + 1 :=
      ⟨byteLength (c :: cs) - 1, by have := byteLength_pos (List.cons_ne_nil c cs); omega⟩
    have hsize : c.utf8Size ≤ n + 1 := by
      rw [← hn, byteLength_cons]
      omega
    have hleft : n + 1 - c.utf8Size = byteLength cs := by
      rw [← hn, byteLength_cons]
      omega
    rw [hn, List.cons_append, splitAtByte?, if_pos hsize, hleft, ih]
    rfl

/-- A span from one part's end to the next part's end covers the next part. -/
theorem sliceBytes?_append (before inside after : List Char) :
    sliceBytes? (before ++ inside ++ after)
      ⟨byteLength before, byteLength before + byteLength inside⟩ = some inside := by
  unfold sliceBytes?
  rw [if_pos (Nat.le_add_right _ _), List.append_assoc, splitAtByte?_append]
  have hsize : byteLength before + byteLength inside - byteLength before = byteLength inside := by
    omega
  simp [hsize, splitAtByte?_append]

/-- Of two cuts of one text the one further on holds all that the other does. -/
theorem prefix_of_byteLength_le {a b c d : List Char} (h : a ++ b = c ++ d)
    (hle : byteLength a ≤ byteLength c) : a <+: c := by
  rcases List.append_eq_append_iff.mp h with ⟨mid, rfl, -⟩ | ⟨mid, rfl, -⟩
  · exact List.prefix_append a mid
  · have hmid : mid = [] := by
      by_contra hne
      have := byteLength_pos hne
      rw [byteLength_append] at hle
      omega
    exact ⟨[], by rw [hmid, List.append_nil, List.append_nil]⟩

/-- A character that begins within a part of a text is one of that part. -/
theorem exists_cut_of_byteLength {front part back before after : List Char} {c : Char}
    (h : front ++ part ++ back = before ++ c :: after) (hlow : byteLength front ≤ byteLength before)
    (hhigh : byteLength before < byteLength front + byteLength part) :
    ∃ left right, before = front ++ left ∧ part = left ++ c :: right ∧ after = right ++ back := by
  rw [List.append_assoc] at h
  obtain ⟨left, rfl⟩ := prefix_of_byteLength_le h hlow
  rw [List.append_assoc, List.append_cancel_left_eq] at h
  rw [byteLength_append] at hhigh
  rcases List.append_eq_append_iff.mp h with ⟨mid, rfl, -⟩ | ⟨mid, rfl, hmid⟩
  · rw [byteLength_append] at hhigh
    omega
  · cases mid with
    | nil =>
      rw [List.append_nil] at hhigh
      omega
    | cons d right =>
      obtain ⟨rfl, rfl⟩ := List.cons.inj hmid
      exact ⟨left, right, rfl, rfl, rfl⟩

/-! ### Line numbers -/

/-- The line in progress at the end of a text. -/
theorem exists_line_head (cs : List Char) : ∃ earlier head, cs = earlier ++ head ∧ '\n' ∉ head ∧
      (earlier = [] ∨ earlier.getLast? = some '\n') := by
  induction cs using List.reverseRecOn with
  | nil => exact ⟨[], [], rfl, by simp, Or.inl rfl⟩
  | append_singleton cs c ih =>
    by_cases hc : c = '\n'
    · exact ⟨cs ++ [c], [], by simp, by simp, Or.inr (by simp [hc])⟩
    · obtain ⟨earlier, head, rfl, hhead, hearlier⟩ := ih
      refine ⟨earlier, head ++ [c], by simp, ?_, hearlier⟩
      simp only [List.mem_append, List.mem_singleton, not_or]
      exact ⟨hhead, fun hnewline => hc hnewline.symm⟩

theorem startsAfterNewlines_append (offset : Nat) (as bs : List Char) :
    startsAfterNewlines offset (as ++ bs)
      = startsAfterNewlines offset as ++ startsAfterNewlines (offset + byteLength as) bs := by
  induction as generalizing offset with
  | nil => simp [startsAfterNewlines]
  | cons c cs ih =>
    have hoffset : offset + c.utf8Size + byteLength cs = offset + (c.utf8Size + byteLength cs) := by
      omega
    simp only [List.cons_append, startsAfterNewlines, byteLength_cons]
    split
    · rw [ih, hoffset, List.cons_append]
    · rw [ih, hoffset]

/-! ### Searching by halves -/

section

variable {starts : List Nat} {offset : Nat}

theorem getD_lt_getD (h : starts.Pairwise (· < ·)) {i j : Nat} (hij : i < j)
    (hj : j < starts.length) : starts.getD i 0 < starts.getD j 0 := by
  rw [List.getD_eq_getElem _ _ (Nat.lt_trans hij hj), List.getD_eq_getElem _ _ hj]
  exact List.pairwise_iff_getElem.mp h i j (Nat.lt_trans hij hj) hj hij

/-- What an outcome of the search says. -/
def Slot.Fits (starts : List Nat) (offset : Nat) : Slot → Prop
  | taken index => index < starts.length ∧ starts.getD index 0 = offset
  | free index => index ≤ starts.length ∧ (∀ i < index, starts.getD i 0 < offset) ∧
      ∀ i, index ≤ i → i < starts.length → offset < starts.getD i 0

variable (hascending : starts.Pairwise (· < ·))

include hascending

/-- All to the left of the window is smaller than what is looked for, and all to its right is
greater. -/
theorem searchSlot_fits {low high : Nat} (hwindow : low ≤ high) (hhigh : high ≤ starts.length)
    (hleft : ∀ i < low, starts.getD i 0 < offset)
    (hright : ∀ i, high ≤ i → i < starts.length → offset < starts.getD i 0) :
    (searchSlot starts offset low high).Fits starts offset := by
  fun_induction searchSlot starts offset low high with
  | case1 low high hlt middle start hfound =>
    have hmiddle : middle < starts.length := by omega
    exact ⟨hmiddle, hfound⟩
  | case2 low high hlt middle start hne hless ih =>
    have hmiddle : middle < starts.length := by omega
    refine ih (by omega) hhigh (fun i hi => ?_) hright
    rcases Nat.lt_or_eq_of_le (Nat.le_of_lt_succ hi) with hi | rfl
    · exact Nat.lt_trans (getD_lt_getD hascending hi hmiddle) hless
    · exact hless
  | case3 low high hlt middle start hne hmore ih =>
    have hgreater : offset < start := by omega
    refine ih (by omega) (by omega) hleft fun i hi hlength => ?_
    rcases Nat.lt_or_eq_of_le hi with hi | rfl
    · exact Nat.lt_trans hgreater (getD_lt_getD hascending hi hlength)
    · exact hgreater
  | case4 low high hempty =>
    obtain rfl : low = high := by omega
    exact ⟨hhigh, hleft, hright⟩

omit hascending

/-- If the first `k` entries and no others are at most `offset`, there are `k` that are. -/
theorem countP_le_eq {k : Nat} (hk : k ≤ starts.length)
    (hfirst : ∀ i < k, starts.getD i 0 ≤ offset)
    (hrest : ∀ i, k ≤ i → i < starts.length → offset < starts.getD i 0) :
    starts.countP (· ≤ offset) = k := by
  have hall : (starts.take k).countP (· ≤ offset) = k := by
    rw [List.countP_eq_length.mpr, List.length_take, Nat.min_eq_left hk]
    intro start hstart
    obtain ⟨i, hi, rfl⟩ := List.mem_take_iff_getElem.mp hstart
    have hle := hfirst i (by omega)
    rw [List.getD_eq_getElem _ _ (by omega)] at hle
    exact decide_eq_true hle
  have hnone : (starts.drop k).countP (· ≤ offset) = 0 := by
    refine List.countP_eq_zero.mpr fun start hstart => ?_
    obtain ⟨i, hi, rfl⟩ := List.mem_drop_iff_getElem.mp hstart
    have hlt := hrest (k + i) (by omega) (by omega)
    rw [List.getD_eq_getElem _ _ (by omega)] at hlt
    simpa using hlt
  rw [← List.take_append_drop k starts, List.countP_append, hall, hnone, Nat.add_zero]

end

namespace LineTable

/-- **The line of an offset is the number of lines that start up to it**, whether one starts
there or not. -/
theorem line_eq_countP (table : LineTable) (offset : Nat) :
    table.line offset = table.starts.countP (· ≤ min offset table.size) := by
  have hfits : (searchSlot table.starts (min offset table.size) 0 table.starts.length).Fits
      table.starts (min offset table.size) :=
    searchSlot_fits table.ascending (Nat.zero_le _) (Nat.le_refl _)
      (fun _ h => absurd h (Nat.not_lt_zero _))
      (fun _ hle hlt => absurd hlt (Nat.not_lt_of_le hle))
  rw [line]
  cases hslot : searchSlot table.starts (min offset table.size) 0 table.starts.length with
  | taken index =>
    rw [hslot] at hfits
    obtain ⟨hlt, hstart⟩ := hfits
    refine (countP_le_eq hlt (fun i hi => ?_) fun i hi hlength => ?_).symm
    · rcases Nat.lt_or_eq_of_le (Nat.le_of_lt_succ hi) with hi | rfl
      · exact hstart ▸ Nat.le_of_lt (getD_lt_getD table.ascending hi hlt)
      · exact Nat.le_of_eq hstart
    · exact hstart ▸ getD_lt_getD table.ascending hi hlength
  | free index =>
    rw [hslot] at hfits
    obtain ⟨hle, hbefore, hbehind⟩ := hfits
    exact (countP_le_eq hle (fun i hi => Nat.le_of_lt (hbefore i hi)) hbehind).symm

/-- The line number never falls as the offset grows. -/
theorem line_mono (table : LineTable) {a b : Nat} (h : a ≤ b) : table.line a ≤ table.line b := by
  rw [line_eq_countP, line_eq_countP]
  refine List.countP_mono_left fun start _ hstart => ?_
  simp only [decide_eq_true_eq] at hstart ⊢
  omega

/-- A newline between two offsets puts them on different lines. -/
theorem line_lt_of_newline {cs before after : List Char} (ending : List Char)
    (hcs : cs = before ++ (ending ++ ['\n']) ++ after) : (ofText cs).line (byteLength before)
      < (ofText cs).line (byteLength before + byteLength (ending ++ ['\n'])) := by
  have hnewline : ('\n' : Char).utf8Size = 1 := rfl
  have hsize : (ofText cs).size
      = byteLength before + byteLength ending + 1 + byteLength after := by
    simp only [ofText, hcs, byteLength_append, byteLength_cons, byteLength_nil, hnewline]
    omega
  -- The newline's own line start is counted at the second offset and not at the first.
  have hstarts : ∃ earlier later, (ofText cs).starts
      = earlier ++ (byteLength before + byteLength ending + 1) :: later := by
    refine ⟨0 :: startsAfterNewlines 0 (before ++ ending),
      startsAfterNewlines (byteLength before + byteLength ending + 1) after, ?_⟩
    have hsplit : cs = (before ++ ending) ++ '\n' :: after := by simp [hcs]
    simp only [ofText, hsplit, startsAfterNewlines_append, startsAfterNewlines,
      byteLength_append, hnewline, Nat.zero_add, if_true, List.cons_append]
  obtain ⟨earlier, later, hstarts⟩ := hstarts
  have hmono : ∀ starts : List Nat,
      starts.countP (fun start => decide (start ≤ byteLength before))
        ≤ starts.countP
          (fun start => decide (start ≤ byteLength before + byteLength ending + 1)) := by
    intro starts
    refine List.countP_mono_left fun start _ hstart => ?_
    simp only [decide_eq_true_eq] at hstart ⊢
    omega
  have hlow : min (byteLength before) (ofText cs).size = byteLength before := by omega
  have hhigh : min (byteLength before + byteLength (ending ++ ['\n'])) (ofText cs).size
      = byteLength before + byteLength ending + 1 := by
    simp only [byteLength_append, byteLength_cons, byteLength_nil, hnewline]
    omega
  have hearlier := hmono earlier
  have hlater := hmono later
  rw [line_eq_countP, line_eq_countP, hlow, hhigh, hstarts]
  simp only [List.countP_append, List.countP_cons]
  have hnot : ¬ byteLength before + byteLength ending + 1 ≤ byteLength before := by omega
  simp only [hnot, decide_false, decide_true, Bool.false_eq_true, if_false, if_true,
    Nat.le_refl]
  omega

end LineTable

end Scrutiny
