/-
Line numbers and columns that a reader can look up.

A line number is worth reporting if the text has such a line, and a column if the
line reaches that far.  Not every offset has both.  The end of a text that ends with
a newline is on a line that has no content of its own, and between a carriage return
and its newline the column lies past the content of the line.  Everywhere else the
reported position is real (`LineTable.position_real`), and any offset inside the text
is on a line that exists (`LineTable.hasLine`).
-/
import Scrutiny.Proofs.Text.Halves

namespace Scrutiny

/-- The text has a line with this number, and `content` is on it. -/
def HasLine (cs : List Char) (line : Nat) (content : List Char) : Prop :=
  1 ≤ line ∧ line ≤ (splitLines cs).length ∧ (splitLines cs)[line - 1]? = some content

/-- The line is there, and the column is on it or just behind its last character. -/
def Position.Real (cs : List Char) (position : Position) : Prop :=
  ∃ content, HasLine cs position.line content ∧
    1 ≤ position.column ∧ position.column ≤ content.length + 1

variable {a b cs before after : List Char}

/-! ### Cutting into lines -/

theorem lineChunks_eq_nil : lineChunks cs = [] ↔ cs = [] := by
  cases cs with
  | nil => simp [lineChunks]
  | cons c cs =>
    simp only [lineChunks]
    split
    · simp
    · split
      · simp
      · simp

/-- A character in front of a line that goes on. -/
theorem lineChunks_cons {c : Char} (hc : c ≠ '\n') {chunk : List Char} {chunks : List (List Char)}
    (h : lineChunks cs = chunk :: chunks) : lineChunks (c :: cs) = (c :: chunk) :: chunks := by
  simp only [lineChunks, hc, h, if_false]

theorem lineChunks_newline (cs : List Char) :
    lineChunks ('\n' :: cs) = ['\n'] :: lineChunks cs := by
  simp only [lineChunks, if_true]

/-- Behind whole lines the cutting begins afresh. -/
theorem lineChunks_append (ha : EndsLine a) (b : List Char) :
    lineChunks (a ++ b) = lineChunks a ++ lineChunks b := by
  induction a with
  | nil => exact absurd rfl ha.ne_nil
  | cons c a ih =>
    by_cases hc : c = '\n'
    · subst hc
      rw [List.cons_append, lineChunks_newline, lineChunks_newline, List.cons_append]
      by_cases hne : a = []
      · rw [hne]
        rfl
      · rw [ih (ha.drop (n := 1) (by simpa [List.length_pos_iff] using hne))]
    · have hend := ha.tail hc
      obtain ⟨chunk, chunks, hchunks⟩ :=
        List.exists_cons_of_ne_nil (mt lineChunks_eq_nil.mp hend.ne_nil)
      have hjoined : lineChunks (a ++ b) = chunk :: (chunks ++ lineChunks b) := by
        rw [ih hend, hchunks, List.cons_append]
      rw [List.cons_append, lineChunks_cons hc hjoined, lineChunks_cons hc hchunks,
        List.cons_append]

theorem splitLines_append (ha : EndsLine a) (b : List Char) :
    splitLines (a ++ b) = splitLines a ++ splitLines b := by
  rw [splitLines, lineChunks_append ha, List.map_append, splitLines, splitLines]

theorem length_splitLines (ha : EndsLine a) : (splitLines a).length = a.count '\n' := by
  rw [splitLines, List.length_map]
  induction a with
  | nil => exact absurd rfl ha.ne_nil
  | cons c a ih =>
    by_cases hc : c = '\n'
    · subst hc
      rw [lineChunks_newline, List.length_cons, List.count_cons_self]
      by_cases hne : a = []
      · rw [hne]
        rfl
      · rw [ih (ha.drop (n := 1) (by simpa [List.length_pos_iff] using hne))]
    · have hend := ha.tail hc
      obtain ⟨chunk, chunks, hchunks⟩ :=
        List.exists_cons_of_ne_nil (mt lineChunks_eq_nil.mp hend.ne_nil)
      rw [lineChunks_cons hc hchunks, List.length_cons, List.count_cons_of_ne hc, ← ih hend,
        hchunks, List.length_cons]

/-- The first line holds all that stands before the first newline. -/
theorem lineChunks_head (hbefore : '\n' ∉ before) (hne : before ++ after ≠ []) :
    ∃ rest chunks, lineChunks (before ++ after) = (before ++ rest) :: chunks := by
  induction before with
  | nil => exact List.exists_cons_of_ne_nil (mt lineChunks_eq_nil.mp hne)
  | cons c before ih =>
    have hc : c ≠ '\n' := fun h => hbefore (h ▸ List.mem_cons_self)
    by_cases hrest : before ++ after = []
    · obtain ⟨rfl, rfl⟩ := List.append_eq_nil_iff.mp hrest
      exact ⟨[], [], by simp [lineChunks, hc]⟩
    · obtain ⟨rest, chunks, hchunks⟩ := ih (fun h => hbefore (List.mem_cons_of_mem c h)) hrest
      exact ⟨rest, chunks, lineChunks_cons hc hchunks⟩

/-- What stands before the first newline is on the first line, a carriage return right
before the newline excepted. -/
theorem length_le_lineContent {rest : List Char} (hbefore : '\n' ∉ before)
    (hreturn : before.getLast? ≠ some '\r') :
    before.length ≤ (lineContent (before ++ rest)).length := by
  unfold lineContent
  by_cases hrest : rest = []
  · have hlast : (before ++ rest).getLast? ≠ some '\n' := by
      rw [hrest, List.append_nil]
      exact fun h => hbefore (List.mem_of_getLast? h)
    rw [if_neg hlast, hrest, List.append_nil]
  · have hdrop : (before ++ rest).dropLast = before ++ rest.dropLast :=
      List.dropLast_append_of_ne_nil hrest
    split
    · rw [hdrop]
      simp only []
      split
      · rename_i hlast
        have hmore : rest.dropLast ≠ [] := by
          intro h
          rw [h, List.append_nil] at hlast
          exact hreturn hlast
        rw [List.dropLast_append_of_ne_nil hmore, List.length_append]
        omega
      · rw [List.length_append]
        omega
    · rw [List.length_append]
      omega

/-! ### Lines of offsets -/

theorem HasLine.behind {line : Nat} {content : List Char} (ha : EndsLine a)
    (h : HasLine b line content) : HasLine (a ++ b) (line + a.count '\n') content := by
  obtain ⟨hpos, hle, hline⟩ := h
  have hlength := length_splitLines ha
  refine ⟨by omega, ?_, ?_⟩
  · rw [splitLines_append ha, List.length_append]
    omega
  · rw [splitLines_append ha, List.getElem?_append_right (by omega), hlength,
      show line + a.count '\n' - 1 - a.count '\n' = line - 1 by omega]
    exact hline

theorem Position.Real.behind {position : Position} (ha : EndsLine a) (h : position.Real b) :
    (Position.mk (position.line + a.count '\n') position.column).Real (a ++ b) := by
  obtain ⟨content, hline, hcolumn⟩ := h
  exact ⟨content, hline.behind ha, hcolumn⟩

namespace LineTable

theorem line_le_count (cs : List Char) (k : Nat) : (ofText cs).line k ≤ cs.count '\n' + 1 := by
  refine (line_le_length _ k).trans ?_
  simp [ofText, length_startsAfterNewlines]

/-- **Every byte of a text is on a line that exists.** -/
theorem hasLine {k : Nat} (hk : k < byteLength cs) :
    ∃ content, HasLine cs ((ofText cs).line k) content := by
  have hpos := line_pos cs k
  suffices hle : (ofText cs).line k ≤ (splitLines cs).length by
    exact ⟨_, hpos, hle, List.getElem?_eq_getElem (by omega)⟩
  by_cases hend : EndsLine cs
  · -- The last line starts behind the final newline, and no byte is there.
    rw [length_splitLines hend]
    obtain ⟨body, rfl⟩ := hend.eq_concat
    have hnewline : ('\n' : Char).utf8Size = 1 := rfl
    rw [byteLength_append, byteLength_cons, byteLength_nil, hnewline] at hk
    rw [line_left ['\n'] (by omega), List.count_append, List.count_singleton_self]
    exact line_le_count body k
  · obtain ⟨earlier, head, rfl, hhead, hearlier⟩ := exists_line_head cs
    have hne : head ≠ [] := by
      rintro rfl
      rcases hearlier with rfl | hearlier
      · exact Nat.not_lt_zero k hk
      · exact hend (by rwa [List.append_nil])
    have hlast : 1 ≤ (splitLines head).length := by
      rw [splitLines, List.length_map, Nat.one_le_iff_ne_zero, Ne, List.length_eq_zero_iff]
      exact mt lineChunks_eq_nil.mp hne
    have hlines : earlier.count '\n' + 1 ≤ (splitLines (earlier ++ head)).length := by
      rcases hearlier with rfl | hearlier
      · simpa using hlast
      · rw [splitLines_append hearlier, List.length_append, length_splitLines hearlier]
        omega
    refine (line_le_count _ k).trans ?_
    rwa [List.count_append, List.count_eq_zero_of_not_mem hhead, Nat.add_zero]

theorem position_head (hbefore : '\n' ∉ before) (after : List Char) :
    (ofText (before ++ after)).position (before ++ after) (byteLength before)
      = ⟨1, before.length + 1⟩ := by
  have hline : (ofText (before ++ after)).line (byteLength before) = 1 := by
    rw [line_between, List.count_eq_zero_of_not_mem hbefore]
  have hstop : max (min (byteLength before) (ofText (before ++ after)).size) 0
      = byteLength before := by
    simp only [ofText, byteLength_append]
    omega
  have hslice : sliceBytes? (before ++ after) ⟨0, byteLength before⟩ = some before := by
    simpa using sliceBytes?_append [] before after
  unfold position
  simp only [hline]
  rw [show (ofText (before ++ after)).starts.getD (1 - 1) 0 = 0 from rfl, hstop, hslice]
  rfl

/-- A position on the first line. -/
theorem position_head_real (hbefore : '\n' ∉ before) (hreturn : before.getLast? ≠ some '\r')
    (hne : before ++ after ≠ []) :
    ((ofText (before ++ after)).position (before ++ after) (byteLength before)).Real
      (before ++ after) := by
  obtain ⟨rest, chunks, hchunks⟩ := lineChunks_head hbefore hne
  rw [position_head hbefore]
  refine ⟨lineContent (before ++ rest), ⟨Nat.le_refl 1, ?_, ?_⟩, Nat.le_add_left 1 _, ?_⟩
  · rw [splitLines, hchunks, List.map_cons, List.length_cons]
    exact Nat.le_add_left 1 _
  · rw [splitLines, hchunks]
    rfl
  · exact Nat.add_le_add_right (length_le_lineContent hbefore hreturn) 1

/-- **The position between two parts of a text is real**, unless it cuts a line ending or
nothing is left on its line. -/
theorem position_real (hreturn : before.getLast? ≠ some '\r')
    (hleft : after ≠ [] ∨ before ≠ [] ∧ ¬ EndsLine before) :
    ((ofText (before ++ after)).position (before ++ after) (byteLength before)).Real
      (before ++ after) := by
  obtain ⟨earlier, head, rfl, hhead, hearlier⟩ := exists_line_head before
  have hne : head ++ after ≠ [] := by
    intro hnil
    obtain ⟨rfl, rfl⟩ := List.append_eq_nil_iff.mp hnil
    rcases hleft with hleft | ⟨hsome, hline⟩
    · exact hleft rfl
    · rw [List.append_nil] at hsome hline
      rcases hearlier with rfl | hearlier
      · exact hsome rfl
      · exact hline hearlier
  have hheadReturn : head.getLast? ≠ some '\r' := by
    intro h
    rw [List.getLast?_append, h] at hreturn
    exact hreturn rfl
  have hreal := position_head_real hhead hheadReturn hne
  rcases hearlier with rfl | hearlier
  · exact hreal
  · rw [List.append_assoc, byteLength_append, Nat.add_comm, position_shift hearlier]
    exact hreal.behind hearlier

end LineTable

/-! ### Boundaries -/

/-- Byte `k` begins a character, and not the newline of a carriage return; or it is past
the end of the text. -/
def Boundary (cs : List Char) (k : Nat) : Prop :=
  byteLength cs ≤ k ∨
    ∃ before after, cs = before ++ after ∧ byteLength before = k ∧ before.getLast? ≠ some '\r'

theorem Boundary.zero (cs : List Char) : Boundary cs 0 :=
  Or.inr ⟨[], cs, rfl, rfl, by simp⟩

theorem trimEnd_append_blanks (cs : List Char) : ∃ blanks, cs = trimEnd cs ++ blanks := by
  refine ⟨(cs.reverse.takeWhile isBlank).reverse, ?_⟩
  rw [trimEnd, ← List.reverse_append, List.takeWhile_append_dropWhile, List.reverse_reverse]

theorem isBlank_getLast?_trimEnd {c : Char} (h : (trimEnd cs).getLast? = some c) :
    isBlank c = false := by
  rw [trimEnd, List.getLast?_reverse] at h
  have hstop := List.head?_dropWhile_not isBlank cs.reverse
  rw [h] at hstop
  exact hstop

/-- **A boundary has a real position once it is moved back over trailing white space.** -/
theorem LineTable.position_trimEnd_real {k : Nat} (hne : cs ≠ []) (hk : Boundary cs k) :
    ((ofText cs).position cs (min k (byteLength (trimEnd cs)))).Real cs := by
  obtain ⟨blanks, hblanks⟩ := trimEnd_append_blanks cs
  have hsize : byteLength cs = byteLength (trimEnd cs) + byteLength blanks := by
    rw [← byteLength_append, ← hblanks]
  by_cases hlt : k < byteLength (trimEnd cs)
  · obtain ⟨before, after, rfl, rfl, hreturn⟩ := hk.resolve_left (by omega)
    have hafter : after ≠ [] := by
      rintro rfl
      rw [List.append_nil] at hsize hlt
      omega
    rw [min_eq_left hlt.le]
    exact position_real hreturn (Or.inl hafter)
  · have hlast : ∀ c, isBlank c = true → (trimEnd cs).getLast? ≠ some c := by
      intro c hc h
      rw [isBlank_getLast?_trimEnd h] at hc
      exact Bool.false_ne_true hc
    have hleft : blanks ≠ [] ∨ trimEnd cs ≠ [] ∧ ¬ EndsLine (trimEnd cs) := by
      by_cases hnone : trimEnd cs = []
      · rw [hnone, List.nil_append] at hblanks
        exact Or.inl (hblanks ▸ hne)
      · exact Or.inr ⟨hnone, hlast '\n' (by decide)⟩
    have hreal := position_real (hlast '\r' (by decide)) hleft
    rw [← hblanks] at hreal
    rwa [min_eq_right (by omega)]

end Scrutiny
