/-
From an offset to its position, and back.

An offset is reported as a line and a column, and a diagnostic that points there marks the
text from that column on.  The way there counts the newlines before the offset and the
characters behind the last of them; the way back cuts the text into lines and counts the
characters of one.  The two meet on a line in its text (`PlacedLine`): it is one piece of the
cutting (`PlacedLine.lineChunks_text`), and its characters have the columns they are counted
by (`PlacedLine.position_text`).  So what is marked begins where the position came from and
ends with the line, and is drawn so.
-/
import Mathlib.Data.Option.Basic
import Scrutiny.Proofs.Text.Positions
import Scrutiny.Report.Drawing

namespace Scrutiny

variable {d : Diagnostic} {span : Span}

/-- A line in its text: what stands before it, its content, its ending, and what follows. -/
structure PlacedLine where
  before : List Char
  content : List Char
  ending : List Char
  after : List Char
  fresh : before = [] ∨ EndsLine before
  unbroken : '\n' ∉ content
  /-- The text ends with the line, or LF or CRLF does; a carriage return before a newline is
  not content. -/
  ended : ending = [] ∧ after = [] ∨ ending = ['\n'] ∧ content.getLast? ≠ some '\r' ∨
    ending = ['\r', '\n']

namespace PlacedLine

/-- The text that the line is in. -/
def text (line : PlacedLine) : List Char :=
  line.before ++ (line.content ++ line.ending) ++ line.after

/-- Where the line starts. -/
def start (line : PlacedLine) : Nat := byteLength line.before

/-- Where its content ends. -/
def stop (line : PlacedLine) : Nat := byteLength line.before + byteLength line.content

end PlacedLine

/-- A character begins at the offset, or the text ends there. -/
def CharBoundary (cs : List Char) (offset : Nat) : Prop :=
  ∃ before after, cs = before ++ after ∧ byteLength before = offset

variable {cs : List Char}

/-! ### Lines in the cutting -/

theorem flatten_lineChunks (cs : List Char) : (lineChunks cs).flatten = cs := by
  induction cs with
  | nil => rfl
  | cons c cs ih =>
    simp only [lineChunks]
    split
    · rw [List.flatten_cons, ih]
      rfl
    · split
      · rename_i hnil
        rw [lineChunks_eq_nil.mp hnil]
        rfl
      · rename_i chunk chunks hchunks
        rw [hchunks, List.flatten_cons] at ih
        rw [List.flatten_cons, List.cons_append, ih]

/-- A piece with no newline but at its end is not cut. -/
theorem lineChunks_piece (h : '\n' ∉ cs.dropLast) (hne : cs ≠ []) : lineChunks cs = [cs] := by
  induction cs with
  | nil => exact absurd rfl hne
  | cons c cs ih =>
    by_cases hrest : cs = []
    · simp [hrest, lineChunks]
    · rw [List.dropLast_cons_of_ne_nil hrest, List.mem_cons, not_or] at h
      exact lineChunks_cons (Ne.symm h.1) (ih h.2 hrest)

theorem lineContent_prefix (chunk : List Char) : lineContent chunk <+: chunk := by
  unfold lineContent
  split
  · simp only []
    split
    · exact (List.dropLast_prefix _).trans (List.dropLast_prefix _)
    · exact List.dropLast_prefix _
  · exact List.prefix_rfl

namespace PlacedLine

variable (line : PlacedLine)

theorem lineContent_eq : lineContent (line.content ++ line.ending) = line.content := by
  unfold lineContent
  rcases line.ended with ⟨hending, -⟩ | ⟨hending, hreturn⟩ | hending
  · have hlast : line.content.getLast? ≠ some '\n' :=
      fun h => line.unbroken (List.mem_of_getLast? h)
    rw [hending, List.append_nil, if_neg hlast]
  · simp only [hending, List.getLast?_concat, List.dropLast_concat, if_true, if_neg hreturn]
  · have hsplit : line.content ++ ['\r', '\n'] = line.content ++ ['\r'] ++ ['\n'] := by simp
    simp only [hending, hsplit, List.getLast?_concat, List.dropLast_concat, if_true]

theorem newline_not_mem_dropLast : '\n' ∉ (line.content ++ line.ending).dropLast := by
  rcases line.ended with ⟨hending, -⟩ | ⟨hending, -⟩ | hending
  · rw [hending, List.append_nil]
    exact fun h => line.unbroken ((List.dropLast_sublist _).subset h)
  · rw [hending, List.dropLast_concat]
    exact line.unbroken
  · rw [hending, List.dropLast_append_of_ne_nil (by simp)]
    simpa using line.unbroken

/-- **A line is one piece of the cutting**, behind the pieces of what stands before it. -/
theorem lineChunks_text (hne : line.content ≠ []) : lineChunks line.text
      = lineChunks line.before ++ (line.content ++ line.ending) :: lineChunks line.after := by
  have hpiece := lineChunks_piece line.newline_not_mem_dropLast (by simp [hne])
  have hfrom : lineChunks (line.content ++ line.ending ++ line.after)
      = (line.content ++ line.ending) :: lineChunks line.after := by
    rcases line.ended with ⟨-, hafter⟩ | hended
    · rw [hafter, List.append_nil, hpiece]
      rfl
    · have hends : EndsLine (line.content ++ line.ending) := by
        rcases hended with ⟨hending, -⟩ | hending
        · simp [EndsLine, hending]
        · simp [EndsLine, hending]
      rw [lineChunks_append hends, hpiece]
      rfl
  rw [text, List.append_assoc, ← hfrom]
  rcases line.fresh with hnil | hends
  · rw [hnil]
    rfl
  · exact lineChunks_append hends _

theorem length_lineChunks_before : (lineChunks line.before).length = line.before.count '\n' := by
  rcases line.fresh with hnil | hends
  · rw [hnil]
    rfl
  · rw [← length_splitLines hends, splitLines, List.length_map]

/-- **The characters of a line have the columns they are counted by.** -/
theorem position_text {head tail : List Char} (hcontent : line.content = head ++ tail) :
    (LineTable.ofText line.text).position line.text (line.start + byteLength head)
      = ⟨line.before.count '\n' + 1, head.length + 1⟩ := by
  have hhead : '\n' ∉ head := fun h => line.unbroken (by simp [hcontent, h])
  have htext : line.text = line.before ++ (head ++ (tail ++ line.ending ++ line.after)) := by
    simp only [text, hcontent, List.append_assoc]
  have hfirst := LineTable.position_head hhead (tail ++ line.ending ++ line.after)
  rw [htext, start, Nat.add_comm]
  rcases line.fresh with hnil | hends
  · rw [hnil]
    exact hfirst
  · rw [LineTable.position_shift hends, hfirst, Nat.add_comm 1]

/-- A character of the content is found between what stands before it and what follows. -/
theorem exists_split {offset : Nat} (hcut : CharBoundary line.text offset)
    (hlow : line.start ≤ offset) (hhigh : offset < line.stop) :
    ∃ head tail, line.content = head ++ tail ∧ tail ≠ [] ∧
      offset = line.start + byteLength head := by
  obtain ⟨front, back, htext, rfl⟩ := hcut
  cases back with
  | nil =>
    rw [List.append_nil] at htext
    rw [← htext] at hhigh
    simp only [text, stop, byteLength_append] at hhigh
    omega
  | cons c back =>
    have hsplit : line.before ++ line.content ++ (line.ending ++ line.after)
        = front ++ c :: back := by
      rw [← htext, text]
      simp only [List.append_assoc]
    obtain ⟨head, tail, rfl, hcontent, -⟩ := exists_cut_of_byteLength hsplit hlow hhigh
    exact ⟨head, c :: tail, hcontent, List.cons_ne_nil c tail, byteLength_append _ _⟩

end PlacedLine

/-! ### What a diagnostic marks -/

theorem Context.line_ofSource (source : String) (line : Nat) (column : Option Nat) (window : Nat) :
    (ofSource source line column window).line = line := by
  simp only [ofSource, apply_ite Context.line, ite_self]

theorem Context.column_ofSource (source : String) (line : Nat) (column : Option Nat)
    (window : Nat) :
    (ofSource source line column window).column = column := by
  simp only [ofSource, apply_ite Context.column, ite_self]

/-- The column of a character that is there. -/
theorem columnOffset_append (head : List Char) {tail : List Char} (hne : tail ≠ []) :
    columnOffset (head ++ tail) (head.length + 1) = byteLength head := by
  have hpos := List.length_pos_iff.mpr hne
  have hindex : min (head.length + 1 - 1) ((head ++ tail).length - 1) = head.length := by
    rw [List.length_append]
    omega
  rw [columnOffset, hindex, List.take_left]

namespace Diagnostic

theorem spanIn?_eq {context : Context} {earlier later : List (List Char)}
    {chunk : List Char} (hcontext : d.context = some context)
    (hchunks : lineChunks cs = earlier ++ chunk :: later)
    (hline : context.line = earlier.length + 1)
    (hne : lineContent chunk ≠ []) : d.spanIn? cs = some ⟨byteLength earlier.flatten
        + columnOffset (lineContent chunk) (max (context.column.getD 1) 1),
      byteLength earlier.flatten + byteLength (lineContent chunk)⟩ := by
  simp [spanIn?, hcontext, hchunks, hline, hne]

theorem cases_of_spanIn? (h : d.spanIn? cs = some span) :
    ∃ context earlier chunk later, d.context = some context ∧
      lineChunks cs = earlier ++ chunk :: later ∧ context.line = earlier.length + 1 ∧
      lineContent chunk ≠ [] := by
  cases hcontext : d.context with
  | none => simp [spanIn?, hcontext] at h
  | some context =>
    cases hchunk : (lineChunks cs)[context.line - 1]? with
    | none => simp [spanIn?, hcontext, hchunk] at h
    | some chunk =>
      simp only [spanIn?, hcontext, hchunk, Option.bind_eq_bind, Option.bind_some] at h
      obtain ⟨⟨⟩, hline, h⟩ := Option.bind_eq_some_iff.mp h
      obtain ⟨⟨⟩, hne, -⟩ := Option.bind_eq_some_iff.mp h
      obtain ⟨hlt, rfl⟩ := List.getElem?_eq_some_iff.mp hchunk
      refine ⟨context, (lineChunks cs).take (context.line - 1), _,
        (lineChunks cs).drop (context.line - 1 + 1), rfl, ?_, ?_, by simpa [guard] using hne⟩
      · rw [← List.drop_eq_getElem_cons hlt, List.take_append_drop]
      · have hzero : context.line ≠ 0 := by simpa [guard] using hline
        rw [List.length_take]
        omega

/-- **What is marked is there**: at least one character, and no part of one. -/
theorem exists_sliceBytes?_spanIn? (h : d.spanIn? cs = some span) :
    ∃ marked, marked ≠ [] ∧ sliceBytes? cs span = some marked := by
  obtain ⟨context, earlier, chunk, later, hcontext, hchunks, hline, hne⟩ := cases_of_spanIn? h
  rw [spanIn?_eq hcontext hchunks hline hne] at h
  obtain ⟨ending, hending⟩ := lineContent_prefix chunk
  have hcs : cs = earlier.flatten ++ (lineContent chunk ++ (ending ++ later.flatten)) := by
    rw [← List.append_assoc (lineContent chunk), hending, ← List.flatten_cons,
      ← List.flatten_append, ← hchunks, flatten_lineChunks]
  obtain rfl := Option.some.inj h
  generalize lineContent chunk = content at *
  generalize hindex : min (max (context.column.getD 1) 1 - 1) (content.length - 1) = index
  have hpos := List.length_pos_iff.mpr hne
  refine ⟨content.drop index, List.ne_nil_of_length_pos (by rw [List.length_drop]; omega), ?_⟩
  have hslice := sliceBytes?_append (earlier.flatten ++ content.take index) (content.drop index)
    (ending ++ later.flatten)
  have hsize : byteLength content
      = byteLength (content.take index) + byteLength (content.drop index) := by
    rw [← byteLength_append, List.take_append_drop]
  rw [byteLength_append, Nat.add_assoc, ← hsize] at hslice
  rw [columnOffset, hindex, ← hslice]
  congr 1
  rw [hcs, List.append_assoc, List.append_assoc, ← List.append_assoc (content.take index),
    List.take_append_drop]

end Diagnostic

/-! ### What is drawn -/

namespace Drawing

theorem flatten_drawnLines (cs : List Char) : (drawnLines cs).flatten = cs := by
  fun_induction drawnLines cs with
  | case1 => rfl
  | case2 cs ih => simp [ih]
  | case3 c cs hcr hends ih => simp [ih]
  | case4 c cs hcr hends hnil ih =>
    rw [hnil] at ih
    simp [← ih]
  | case5 c cs hcr hends line lines hlines ih =>
    rw [hlines] at ih
    simp [← ih]

/-- The drawn line of an offset is the one that the offset falls into. -/
theorem lineAt_eq {offset start : Nat} (number : Nat) {lines : List (List Char)}
    (hlow : start ≤ offset) (hhigh : offset < start + byteLength lines.flatten) :
    ∃ earlier chars later, lines = earlier ++ chars :: later ∧ lineAt offset number start lines
        = ⟨number + earlier.length, start + byteLength earlier.flatten, chars⟩ ∧
      start + byteLength earlier.flatten ≤ offset ∧
      offset < start + byteLength earlier.flatten + byteLength chars := by
  induction lines generalizing number start with
  | nil =>
    simp only [List.flatten_nil, byteLength_nil] at hhigh
    omega
  | cons chars lines ih =>
    simp only [List.flatten_cons, byteLength_append] at hhigh
    simp only [lineAt]
    split
    · rename_i hhere
      refine ⟨[], chars, lines, rfl, rfl, hlow, ?_⟩
      rcases hhere with hlt | rfl
      · exact hlt
      · exact hhigh
    · rename_i hthere
      rw [not_or, Nat.not_lt] at hthere
      obtain ⟨earlier, found, later, rfl, hline, hfrom, hto⟩ :=
        ih (number + 1) hthere.1 (by omega)
      refine ⟨chars :: earlier, found, later, rfl, ?_, ?_, ?_⟩
      · rw [hline]
        simp only [List.length_cons, List.flatten_cons, byteLength_append, DrawnLine.mk.injEq,
          and_true]
        omega
      · simp only [List.flatten_cons, byteLength_append]
        omega
      · simp only [List.flatten_cons, byteLength_append]
        omega

end Drawing

/-- How a diagnostic is drawn under the characters of a line that `mark` tells. -/
def Diagnostic.drawn (d : Diagnostic) (line : Drawing.DrawnLine) (mark : Drawing.Mark) : String :=
  String.join ((Drawing.rows d.message line mark (d.suggestions.head?.getD "here")
    (d.suggestions.drop 1)).map (· ++ "\n"))

/-- The drawing shows a line of the source, and marks as many characters as `marked` has from
the one that begins at `offset` on. -/
def Diagnostic.DrawsFrom (d : Diagnostic) (source : String) (offset : Nat) (marked : List Char) :
    Prop :=
  ∃ number front left right back, source.toList = front ++ (left ++ right) ++ back ∧
    byteLength (front ++ left) = offset ∧ right ≠ [] ∧
    d.render source = d.drawn ⟨number, byteLength front, left ++ right⟩
      ⟨left.length, left.length + marked.length⟩

/-- **What is marked is drawn from its first character on.** -/
theorem Diagnostic.drawsFrom_of_spanIn? {source : String}
    (h : d.spanIn? source.toList = some span) :
    ∃ marked, sliceBytes? source.toList span = some marked ∧
      d.DrawsFrom source span.start marked := by
  obtain ⟨marked, hne, hmarked⟩ := exists_sliceBytes?_spanIn? h
  obtain ⟨before, after, hsource, hstart, -⟩ := eq_of_sliceBytes? hmarked
  have hsize : span.start < 0 + byteLength (Drawing.drawnLines source.toList).flatten := by
    have := byteLength_pos hne
    rw [Drawing.flatten_drawnLines, hsource]
    simp only [byteLength_append]
    omega
  obtain ⟨earlier, chars, later, hlines, hline, hlow, hhigh⟩ :=
    Drawing.lineAt_eq 1 (Nat.zero_le span.start) hsize
  rw [Nat.zero_add] at hline hlow hhigh
  have hcs : source.toList = earlier.flatten ++ chars ++ later.flatten := by
    rw [← Drawing.flatten_drawnLines source.toList, hlines]
    simp
  obtain ⟨c, more, rfl⟩ := List.exists_cons_of_ne_nil hne
  have hcut : earlier.flatten ++ chars ++ later.flatten = before ++ c :: (more ++ after) := by
    rw [← hcs, hsource, List.append_assoc, List.cons_append]
  obtain ⟨left, right, rfl, rfl, -⟩ := exists_cut_of_byteLength hcut (by omega) (by omega)
  have hleft : sliceBytes? source.toList ⟨byteLength earlier.flatten, span.start⟩ = some left := by
    have := sliceBytes?_append earlier.flatten left (c :: right ++ later.flatten)
    rw [← hstart, byteLength_append, hcs]
    simpa using this
  refine ⟨c :: more, hmarked, 1 + earlier.length, earlier.flatten, left, c :: right, later.flatten,
    hcs, hstart, List.cons_ne_nil c right, ?_⟩
  simp only [render, drawn, h, hline, hleft, hmarked, Option.getD_some]

/--
**A diagnostic marks the text from the place that its position came from.**  The position of a
character of a line, given to a diagnostic with whatever lines around it, marks the bytes from
that character to the end of the line's content.  What is marked is characters as a whole, also
for any other diagnostic, and it is drawn under the character that begins at the offset.
-/
theorem Diagnostic.spanIn?_position {source : String} {line : PlacedLine} {offset : Nat}
    (hsource : source.toList = line.text) (hcut : CharBoundary source.toList offset)
    (hlow : line.start ≤ offset) (hhigh : offset < line.stop) (d : Diagnostic) (window : Nat) :
    let position := (LineTable.ofText source.toList).position source.toList offset
    let pointing := d.pointingAt (.ofSource source position.line (some position.column) window)
    pointing.spanIn? source.toList = some ⟨offset, line.stop⟩ ∧
    (∀ (other : Diagnostic) (span : Span), other.spanIn? source.toList = some span →
      ∃ marked, marked ≠ [] ∧ sliceBytes? source.toList span = some marked) ∧
    ∃ marked, sliceBytes? source.toList ⟨offset, line.stop⟩ = some marked ∧
      pointing.DrawsFrom source offset marked := by
  intro position pointing
  have hspan : pointing.spanIn? source.toList = some ⟨offset, line.stop⟩ := by
    rw [hsource] at hcut
    obtain ⟨head, tail, hcontent, htail, rfl⟩ := line.exists_split hcut hlow hhigh
    have hne : line.content ≠ [] := by simp [hcontent, htail]
    have hposition : position = ⟨line.before.count '\n' + 1, head.length + 1⟩ := by
      show (LineTable.ofText source.toList).position source.toList _ = _
      rw [hsource]
      exact line.position_text hcontent
    rw [hsource, spanIn?_eq rfl (line.lineChunks_text hne)
      (by rw [Context.line_ofSource, hposition, line.length_lineChunks_before])
      (by rwa [line.lineContent_eq])]
    rw [line.lineContent_eq, flatten_lineChunks, Context.column_ofSource, hposition]
    have hcolumn : max ((some (head.length + 1)).getD 1) 1 = head.length + 1 := by
      rw [Option.getD_some]
      omega
    simp only []
    rw [hcolumn, hcontent, columnOffset_append head htail]
    simp only [PlacedLine.start, PlacedLine.stop, hcontent]
  exact ⟨hspan, fun other span h => exists_sliceBytes?_spanIn? h, drawsFrom_of_spanIn? hspan⟩

/-- The second line of three, of characters of one, two and three bytes. -/
def wideLine : PlacedLine where
  before := ['a', '\r', '\n']
  content := ['变', 'é', '=', '1']
  ending := ['\r', '\n']
  after := ['\n']
  fresh := Or.inr rfl
  unbroken := by decide
  ended := Or.inr (Or.inr rfl)

theorem Diagnostic.spanIn?_position_wide :
    (LineTable.ofText "a\r\n变é=1\r\n\n".toList).position "a\r\n变é=1\r\n\n".toList 6 = ⟨2, 2⟩ ∧
    ((ofMessage "m").pointingAt (.ofSource "a\r\n变é=1\r\n\n" 2 (some 2) 5)).spanIn?
      "a\r\n变é=1\r\n\n".toList = some ⟨6, 10⟩ := by
  have htext : "a\r\n变é=1\r\n\n".toList = wideLine.text := by decide +kernel
  have hposition : (LineTable.ofText "a\r\n变é=1\r\n\n".toList).position
      "a\r\n变é=1\r\n\n".toList 6 = ⟨2, 2⟩ := by decide +kernel
  have hcut : CharBoundary "a\r\n变é=1\r\n\n".toList 6 :=
    ⟨['a', '\r', '\n', '变'], ['é', '=', '1', '\r', '\n', '\n'], htext, by decide⟩
  have hspan := (spanIn?_position htext hcut (by decide) (by decide) (ofMessage "m") 5).1
  rw [hposition] at hspan
  exact ⟨hposition, hspan⟩

end Scrutiny
