/-
A text in two halves, the first of them whole lines.

Everything about the second half is the same in the whole text, except for the bytes
and the lines in front of it.  For offsets that is one equation about cutting
(`splitAtByte?_shift`), and for lines one equation about where they start
(`LineTable.starts_append`); slices, line heads and positions follow from the two.
-/
import Mathlib.Data.List.TakeWhile
import Scrutiny.Proofs.Text
import Scrutiny.Text.Blank

namespace Scrutiny

/-- A text that ends with a newline. -/
def EndsLine (cs : List Char) : Prop := cs.getLast? = some '\n'

namespace EndsLine

variable {cs : List Char} {n : Nat}

theorem ne_nil (h : EndsLine cs) : cs ≠ [] := by
  rintro rfl
  simp [EndsLine] at h

theorem mem (h : EndsLine cs) : '\n' ∈ cs := List.mem_of_getLast? h

theorem drop (h : EndsLine cs) (hn : n < cs.length) : EndsLine (cs.drop n) := by
  rw [EndsLine, List.getLast?_drop, if_neg (by omega)]
  exact h

theorem tail {c : Char} (h : EndsLine (c :: cs)) (hc : c ≠ '\n') : EndsLine cs := by
  cases cs with
  | nil => simp [EndsLine, hc] at h
  | cons d cs => simpa [EndsLine] using h

theorem eq_concat (h : EndsLine cs) : ∃ body, cs = body ++ ['\n'] :=
  ⟨cs.dropLast, (List.dropLast_append_getLast? '\n' h).symm⟩

end EndsLine

variable {a b : List Char} {k : Nat}

/-! ### Offsets -/

/-- Two cuts of one text after as many bytes are one cut. -/
theorem eq_of_byteLength_eq {c d : List Char} (h : a ++ b = c ++ d)
    (hsize : byteLength a = byteLength c) : a = c ∧ b = d := by
  have hac : a = c := (prefix_of_byteLength_le h hsize.le).eq_of_length_le
    (prefix_of_byteLength_le h.symm hsize.ge).length_le
  rw [hac, List.append_cancel_left_eq] at h
  exact ⟨hac, h⟩

/-- What a cut means. -/
theorem eq_of_splitAtByte? {n : Nat} {cs before after : List Char}
    (h : splitAtByte? n cs = some (before, after)) :
    cs = before ++ after ∧ byteLength before = n := by
  induction cs generalizing n before after with
  | nil =>
    cases n with
    | zero => simp_all [splitAtByte?]
    | succ n => simp [splitAtByte?] at h
  | cons c cs ih =>
    cases n with
    | zero => simp_all [splitAtByte?]
    | succ n =>
      rw [splitAtByte?] at h
      split at h
      · obtain ⟨parts, hparts, heq⟩ := Option.map_eq_some_iff.mp h
        obtain ⟨rfl, rfl⟩ := Prod.mk.inj heq
        obtain ⟨rfl, hsize⟩ := ih hparts
        refine ⟨rfl, ?_⟩
        rw [byteLength_cons]
        omega
      · simp at h

/-- What a slice means. -/
theorem eq_of_sliceBytes? {cs inside : List Char} {start stop : Nat}
    (h : sliceBytes? cs ⟨start, stop⟩ = some inside) :
    ∃ before after, cs = before ++ inside ++ after ∧ byteLength before = start ∧
      byteLength before + byteLength inside = stop := by
  unfold sliceBytes? at h
  split at h
  · rename_i horder
    cases hsplit : splitAtByte? start cs with
    | none => simp [hsplit] at h
    | some parts =>
      cases hinner : splitAtByte? (stop - start) parts.2 with
      | none => simp [hsplit, hinner] at h
      | some inner =>
        obtain rfl : inner.1 = inside := by simpa [hsplit, hinner] using h
        obtain ⟨hcs, hbefore⟩ := eq_of_splitAtByte? hsplit
        obtain ⟨hrest, hinside⟩ := eq_of_splitAtByte? hinner
        refine ⟨parts.1, inner.2, ?_, hbefore, ?_⟩
        · rw [hcs, hrest, List.append_assoc]
        · simp only at horder
          omega
  · simp at h

/-- A cut in the second half. -/
theorem splitAtByte?_shift (a b : List Char) (k : Nat) : splitAtByte? (k + byteLength a) (a ++ b)
      = (splitAtByte? k b).map fun parts => (a ++ parts.1, parts.2) := by
  induction a with
  | nil => simp
  | cons c a ih =>
    have hpos := c.utf8Size_pos
    obtain ⟨n, hn⟩ : ∃ n, k + byteLength (c :: a) = n + 1 :=
      ⟨k + byteLength (c :: a) - 1, by rw [byteLength_cons]; omega⟩
    have hleft : n + 1 - c.utf8Size = k + byteLength a := by
      rw [← hn, byteLength_cons]
      omega
    have hfits : c.utf8Size ≤ n + 1 := by
      rw [← hn, byteLength_cons]
      omega
    rw [hn, List.cons_append, splitAtByte?, if_pos hfits, hleft, ih, Option.map_map]
    rfl

/-- A cut in the first half. -/
theorem splitAtByte?_left (b : List Char) (hk : k ≤ byteLength a) :
    splitAtByte? k (a ++ b) = (splitAtByte? k a).map fun parts => (parts.1, parts.2 ++ b) := by
  induction a generalizing k with
  | nil =>
    obtain rfl : k = 0 := Nat.le_zero.mp hk
    simp [splitAtByte?]
  | cons c a ih =>
    cases k with
    | zero => simp [splitAtByte?]
    | succ k =>
      rw [List.cons_append, splitAtByte?, splitAtByte?]
      by_cases hfits : c.utf8Size ≤ k + 1
      · rw [byteLength_cons] at hk
        rw [if_pos hfits, if_pos hfits, ih (by omega), Option.map_map, Option.map_map]
        rfl
      · rw [if_neg hfits, if_neg hfits]
        rfl

theorem sliceBytes?_shift (a b : List Char) (start stop : Nat) :
    sliceBytes? (a ++ b) ⟨start + byteLength a, stop + byteLength a⟩
      = sliceBytes? b ⟨start, stop⟩ := by
  unfold sliceBytes?
  have hlength : stop + byteLength a - (start + byteLength a) = stop - start := by omega
  have horder : start + byteLength a ≤ stop + byteLength a ↔ start ≤ stop := by omega
  simp only [splitAtByte?_shift, hlength, horder]
  cases splitAtByte? start b with
  | none => rfl
  | some parts => rfl

/-! ### The line in progress -/

/-- The line in progress does not reach into the first half. -/
theorem lineHead_shift (ha : EndsLine a) (b : List Char) (k : Nat) :
    lineHead (a ++ b) (k + byteLength a) = lineHead b k := by
  unfold lineHead
  rw [splitAtByte?_shift]
  cases splitAtByte? k b with
  | none => rfl
  | some parts =>
    obtain ⟨body, rfl⟩ := ha.eq_concat
    have hstop : ∀ xs : List Char,
        (xs ++ '\n' :: body.reverse).takeWhile (· != '\n') = xs.takeWhile (· != '\n') := by
      intro xs
      induction xs with
      | nil => rfl
      | cons c xs ih => simp [List.takeWhile_cons, ih]
    simp [hstop]

theorem lineHead_left (b : List Char) (hk : k ≤ byteLength a) :
    lineHead (a ++ b) k = lineHead a k := by
  unfold lineHead
  rw [splitAtByte?_left b hk]
  cases splitAtByte? k a with
  | none => rfl
  | some parts => rfl

/-! ### Lines -/

theorem startsAfterNewlines_shift (offset d : Nat) (cs : List Char) :
    startsAfterNewlines (offset + d) cs = (startsAfterNewlines offset cs).map (· + d) := by
  induction cs generalizing offset with
  | nil => rfl
  | cons c cs ih =>
    have hnext : offset + d + c.utf8Size = offset + c.utf8Size + d := by omega
    simp only [startsAfterNewlines, hnext, ih]
    split
    · rfl
    · rfl

theorem length_startsAfterNewlines (offset : Nat) (cs : List Char) :
    (startsAfterNewlines offset cs).length = cs.count '\n' := by
  induction cs generalizing offset with
  | nil => rfl
  | cons c cs ih =>
    simp only [startsAfterNewlines, List.count_cons]
    split
    · rename_i hc
      simp [ih, hc]
    · rename_i hc
      simp [ih, hc]

namespace LineTable

/-- **The lines of the second half start where they did**, behind those of the first. -/
theorem starts_append (ha : EndsLine a) (b : List Char) :
    ∃ front, (ofText (a ++ b)).starts = front ++ (ofText b).starts.map (· + byteLength a) ∧
      front.length = a.count '\n' ∧ ∀ start ∈ front, start < byteLength a := by
  obtain ⟨body, rfl⟩ := ha.eq_concat
  have hnewline : ('\n' : Char).utf8Size = 1 := rfl
  refine ⟨0 :: startsAfterNewlines 0 body, ?_, ?_, ?_⟩
  · simp only [ofText, startsAfterNewlines_append, startsAfterNewlines, if_true, byteLength_append,
      byteLength_cons, byteLength_nil, startsAfterNewlines_shift 0, List.map_cons]
    simp
  · simp [length_startsAfterNewlines, List.count_append]
  · intro start hstart
    rw [byteLength_append, byteLength_cons, hnewline]
    rcases List.mem_cons.mp hstart with rfl | hstart
    · omega
    · have := le_of_mem_startsAfterNewlines hstart
      omega

theorem line_shift (ha : EndsLine a) (b : List Char) (k : Nat) :
    (ofText (a ++ b)).line (k + byteLength a) = (ofText b).line k + a.count '\n' := by
  obtain ⟨front, hstarts, hlength, hfront⟩ := starts_append ha b
  have hsize : (ofText (a ++ b)).size = (ofText b).size + byteLength a := by
    simp only [ofText, byteLength_append]
    omega
  have hmin : min (k + byteLength a) ((ofText b).size + byteLength a)
      = min k (ofText b).size + byteLength a := by omega
  rw [line_eq_countP, line_eq_countP, hstarts, hsize, hmin, List.countP_append, List.countP_map,
    ← hlength]
  have hall : front.countP (fun start => decide (start ≤ min k (ofText b).size + byteLength a))
      = front.length := by
    refine List.countP_eq_length.mpr fun start hstart => ?_
    have := hfront start hstart
    simp only [decide_eq_true_eq]
    omega
  have hsame : (fun start => decide (start ≤ min k (ofText b).size + byteLength a)) ∘
      (· + byteLength a) = fun start => decide (start ≤ min k (ofText b).size) := by
    funext start
    simp
  rw [hall, hsame, Nat.add_comm]

theorem line_left (b : List Char) (hk : k ≤ byteLength a) :
    (ofText (a ++ b)).line k = (ofText a).line k := by
  have hmin : min k (ofText (a ++ b)).size = k ∧ min k (ofText a).size = k := by
    simp only [ofText, byteLength_append]
    omega
  have hnone : (startsAfterNewlines (0 + byteLength a) b).countP
      (fun start => decide (start ≤ k)) = 0 := by
    refine List.countP_eq_zero.mpr fun start hstart => ?_
    have := le_of_mem_startsAfterNewlines hstart
    simp only [decide_eq_true_eq]
    omega
  rw [line_eq_countP, line_eq_countP, hmin.1, hmin.2]
  simp only [ofText, startsAfterNewlines_append, List.countP_cons, List.countP_append, hnone,
    Nat.add_zero]

/-- The line of a place is told by the newlines before it. -/
theorem line_between (before after : List Char) :
    (ofText (before ++ after)).line (byteLength before) = before.count '\n' + 1 := by
  rw [line_left after (Nat.le_refl _), line_eq_countP]
  simp only [ofText, Nat.min_self, List.countP_cons, Nat.zero_le, decide_true, if_true]
  rw [List.countP_eq_length.mpr, length_startsAfterNewlines]
  intro start hstart
  simpa using (le_of_mem_startsAfterNewlines hstart).2

theorem line_pos (cs : List Char) (k : Nat) : 0 < (ofText cs).line k := by
  simp [line_eq_countP, ofText]

theorem line_le_length (table : LineTable) (k : Nat) : table.line k ≤ table.starts.length := by
  rw [line_eq_countP]
  exact List.countP_le_length

theorem position_shift (ha : EndsLine a) (b : List Char) (k : Nat) :
    (ofText (a ++ b)).position (a ++ b) (k + byteLength a)
      = ⟨((ofText b).position b k).line + a.count '\n', ((ofText b).position b k).column⟩ := by
  obtain ⟨front, hstarts, hlength, -⟩ := starts_append ha b
  have hpos := line_pos b k
  have hsize : (ofText (a ++ b)).size = (ofText b).size + byteLength a := by
    simp only [ofText, byteLength_append]
    omega
  have hline := line_shift ha b k
  have hindex : (ofText b).line k + a.count '\n' - 1
      = front.length + ((ofText b).line k - 1) := by omega
  have hstart : (ofText (a ++ b)).starts.getD ((ofText b).line k + a.count '\n' - 1) 0
      = (ofText b).starts.getD ((ofText b).line k - 1) 0 + byteLength a := by
    have hin : (ofText b).line k - 1 < (ofText b).starts.length := by
      have := (ofText b).line_le_length k
      omega
    rw [hstarts, hindex]
    simp [List.getElem?_append_right, List.getElem?_eq_getElem hin]
  have hstop : ∀ start,
      max (min (k + byteLength a) ((ofText b).size + byteLength a)) (start + byteLength a)
      = max (min k (ofText b).size) start + byteLength a := by
    intro start
    omega
  unfold position
  simp only [hline, hstart, hsize, hstop, sliceBytes?_shift]

end LineTable

/-! ### White space at the end -/

theorem trimEnd_append (a : List Char) (hb : isBlankText b = false) :
    trimEnd (a ++ b) = a ++ trimEnd b := by
  unfold trimEnd
  rw [List.reverse_append, List.dropWhile_append, if_neg]
  · simp
  · rw [List.isEmpty_iff, List.dropWhile_eq_nil_iff]
    intro hall
    rw [isBlankText, List.all_eq_false] at hb
    obtain ⟨c, hc, hblank⟩ := hb
    exact hblank (hall c (List.mem_reverse.mpr hc))

end Scrutiny
