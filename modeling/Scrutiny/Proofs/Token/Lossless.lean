/-
Nothing of a text is lost on the way to its token stream.

The scan accounts for every byte of a text: it belongs to a token or to a gap.  The
layout then puts marks in and drops some newlines.  This file follows both.  Marks
cover nothing, and a newline is dropped only where the grammar has no use for it:
at the end of a line with nothing on it, or inside brackets (`DroppedEnd`).

The argument for a dropped newline cuts the steps of the layout there.  On a blank
line the last token put out before is a newline too, and whatever was put out
before that one stopped at an earlier line.  Inside brackets the innermost open one
is found before the cut, and its partner after it.
-/
import Scrutiny.Proofs.Token.Structure

namespace Scrutiny

variable {lexeme : Lexeme}

/-- No token but marks reaches into the line that `text`, after `before`, ends. -/
def OnBlankLine (tokens : List Lexeme) (before text : List Char) : Prop :=
  ∃ earlier head, before = earlier ++ head ∧ '\n' ∉ head ∧
    (earlier = [] ∨ earlier.getLast? = some '\n') ∧
    ∀ lexeme ∈ tokens, lexeme.token.isMark = false →
      lexeme.span.stop ≤ byteLength earlier ∨
        byteLength before + byteLength text ≤ lexeme.span.start

/-- `text`, after `before`, stands between two brackets that are partners. -/
def InBrackets (tokens : List Lexeme) (before text : List Char) : Prop :=
  ∃ b front opener inside closer back, tokens = front ++ opener :: inside ++ closer :: back ∧
    opener.token = .symbol (.opening b) ∧ closer.token = .symbol (.closing b) ∧ Nested inside ∧
    opener.span.stop ≤ byteLength before ∧
    byteLength before + byteLength text ≤ closer.span.start

/-- A line ending that ends no logical line. -/
def DroppedEnd (tokens : List Lexeme) (before text : List Char) : Prop :=
  IsLineEnd text ∧ (OnBlankLine tokens before text ∨ InBrackets tokens before text)

/-- How a token stream accounts for the text that it came from. -/
structure Lossless (cs : List Char) (tokens : List Lexeme) : Prop where
  inside : ∀ lexeme ∈ tokens,
    lexeme.span.start ≤ lexeme.span.stop ∧ lexeme.span.stop ≤ byteLength cs
  ordered : tokens.Pairwise fun a b => a.span.stop ≤ b.span.start
  /-- What is no mark is written so where it stands. -/
  written : ∀ lexeme ∈ tokens, lexeme.token.isMark = false →
    sliceBytes? cs lexeme.span = some lexeme.token.text.toList
  indents : ∀ lexeme ∈ tokens, lexeme.token = .indent ∨ lexeme.token = .dedent →
    lexeme.span.start = lexeme.span.stop
  /-- A newline is a line ending of the text, or was put at its end. -/
  newlines : ∀ lexeme ∈ tokens, lexeme.token = .newline →
    (∃ ending, IsLineEnd ending ∧ sliceBytes? cs lexeme.span = some ending) ∨
      lexeme.span = .point (byteLength cs) ∧
        ∃ before after, tokens = before ++ lexeme :: after ∧ ∀ later ∈ after, later.token = .dedent
  /-- Each byte belongs to a token, or to a gap or dropped line ending, into which no
  token reaches. -/
  covered : ∀ k, k < byteLength cs →
    (∃ lexeme ∈ tokens, lexeme.span.start ≤ k ∧ k < lexeme.span.stop) ∨
      ∃ before text after, cs = before ++ text ++ after ∧
        (Gap text after ∨ DroppedEnd tokens before text) ∧
        byteLength before ≤ k ∧ k < byteLength before + byteLength text ∧
        ∀ lexeme ∈ tokens, lexeme.span.stop ≤ byteLength before ∨
          byteLength before + byteLength text ≤ lexeme.span.start

/-! ### Lines of a text -/

/-- What ends in a newline does not reach into the line in progress. -/
theorem byteLength_le_of_prefix {front earlier head : List Char}
    (hfront : front <+: earlier ++ head) (hlast : front.getLast? = some '\n')
    (hhead : '\n' ∉ head) : byteLength front ≤ byteLength earlier := by
  obtain ⟨rest, hrest⟩ := hfront
  rcases List.append_eq_append_iff.mp hrest with ⟨mid, rfl, -⟩ | ⟨mid, rfl, hmid⟩
  · rw [byteLength_append]
    omega
  · cases hend : mid.getLast? with
    | none =>
      rw [List.getLast?_eq_none_iff.mp hend, List.append_nil]
    | some c =>
      rw [List.getLast?_append, hend, Option.some_or] at hlast
      have hc : c ∈ head := by
        rw [hmid]
        exact List.mem_append_left _ (List.mem_of_getLast? hend)
      obtain rfl : c = '\n' := by simpa using hlast
      exact absurd hc hhead

theorem IsLineEnd.getLast? {ending : List Char} (h : IsLineEnd ending) :
    ending.getLast? = some '\n' := by
  rcases h with rfl | rfl
  · rfl
  · rfl

namespace Layout

variable {cs : List Char} {table : LineTable} {start state : State} {read out : List Lexeme}
  {lines : List LogicalLine}

/-! ### Where the tokens of a stream come from -/

/-- What is put out was read, or is a mark right before something that was. -/
theorem Steps.origin (h : Steps cs table start read state out lines) :
    ∀ lexeme ∈ out, lexeme ∈ read ∨ (lexeme.token = .indent ∨ lexeme.token = .dedent) ∧
        ∃ other ∈ read, lexeme.span = .point other.span.start := by
  induction h with
  | nil => simp
  | @snoc read state next out more lines ended last hsteps hstep ih =>
    intro lexeme hlexeme
    rcases List.mem_append.mp hlexeme with hlexeme | hlexeme
    · rcases ih lexeme hlexeme with hread | ⟨hmark, other, hother, hspan⟩
      · exact Or.inl (by simp [hread])
      · exact Or.inr ⟨hmark, other, by simp [hother], hspan⟩
    · cases hstep with
      | blank hnewline hline => simp at hlexeme
      | inner hnewline hopen => simp at hlexeme
      | ending hnewline hline hclosed =>
        exact Or.inl (by simp [List.mem_singleton.mp hlexeme])
      | further hother hline hbrackets =>
        exact Or.inl (by simp [List.mem_singleton.mp hlexeme])
      | @first indents marks brackets hother hline hindent hbrackets =>
        rcases List.mem_append.mp hlexeme with hlexeme | hlexeme
        · obtain ⟨mark, hmark, rfl⟩ := List.mem_map.mp hlexeme
          refine Or.inr ⟨?_, last, by simp, rfl⟩
          rcases reindent?_cases hindent with ⟨-, rfl⟩ | ⟨left, -, -, rfl⟩
          · exact Or.inl (List.mem_singleton.mp hmark)
          · exact Or.inr (List.eq_of_mem_replicate hmark)
        · exact Or.inl (by simp [List.mem_singleton.mp hlexeme])

/-- So its span lies within that of something read. -/
theorem Steps.within (h : Steps cs table start read state out lines) (hread : Scanned cs read) :
    ∀ lexeme ∈ out, ∃ other ∈ read, other.span.start ≤ lexeme.span.start ∧
      lexeme.span.start ≤ lexeme.span.stop ∧ lexeme.span.stop ≤ other.span.stop := by
  intro lexeme hlexeme
  rcases h.origin lexeme hlexeme with hmem | ⟨-, other, hother, hspan⟩
  · exact ⟨lexeme, hmem, Nat.le_refl _, (hread.stands lexeme hmem).bounds.1, Nat.le_refl _⟩
  · refine ⟨other, hother, ?_, ?_, ?_⟩
    · rw [hspan]
      exact Nat.le_refl _
    · rw [hspan]
      exact Nat.le_refl _
    · rw [hspan]
      exact (hread.stands other hother).bounds.1

/-- Tokens are put out in the order of their spans. -/
theorem Steps.pairwise (h : Steps cs table start read state out lines)
    (hread : Scanned cs read) : out.Pairwise fun a b => a.span.stop ≤ b.span.start := by
  induction h with
  | nil => exact .nil
  | @snoc read state next out more lines ended last hsteps hstep ih =>
    -- All that is put out for the last token lies within it.
    have hmore : ∀ lexeme ∈ more, last.span.start ≤ lexeme.span.start := by
      intro lexeme hlexeme
      obtain ⟨other, hother, hle, -⟩ := (Steps.nil.snoc hstep).within
        ⟨by simpa using hread.last, by simp⟩ lexeme (by simpa using hlexeme)
      obtain rfl : other = last := by simpa using hother
      exact hle
    refine List.pairwise_append.mpr ⟨ih hread.init, ?_, ?_⟩
    · cases hstep with
      | blank hnewline hline => exact .nil
      | inner hnewline hopen => exact .nil
      | ending hnewline hline hclosed => exact List.pairwise_singleton _ _
      | further hother hline hbrackets => exact List.pairwise_singleton _ _
      | @first indents marks brackets hother hline hindent hbrackets =>
        refine List.pairwise_append.mpr ⟨?_, List.pairwise_singleton _ _, ?_⟩
        · refine List.pairwise_map.mpr (List.pairwise_of_forall fun _ _ => ?_)
          exact Nat.le_refl _
        · intro mark hmark lexeme hlexeme
          obtain ⟨token, -, rfl⟩ := List.mem_map.mp hmark
          rw [List.mem_singleton.mp hlexeme]
          exact Nat.le_refl _
    · intro lexeme hlexeme other hother
      obtain ⟨source, hsource, -, -, hstop⟩ := hsteps.within hread.init lexeme hlexeme
      have hlast := hread.le_last source hsource
      have hstart := hmore other hother
      omega

/-! ### Newlines that are dropped -/

variable (h : Steps cs table .initial read state out lines)

include h

/-- On a line with nothing on it so far, what was put out stopped at an earlier line. -/
theorem Steps.onBlankLine {before : List Char} (hread : Scanned cs read)
    (hline : state.line? = none) (hbefore : before <+: cs)
    (hpast : ∀ lexeme ∈ read, lexeme.span.stop ≤ byteLength before) :
    ∃ earlier head, before = earlier ++ head ∧ '\n' ∉ head ∧
      (earlier = [] ∨ earlier.getLast? = some '\n') ∧
      ∀ lexeme ∈ out, lexeme.token.isMark = false → lexeme.span.stop ≤ byteLength earlier := by
  obtain ⟨earlier, head, rfl, hhead, hearlier⟩ := exists_line_head before
  refine ⟨earlier, head, rfl, hhead, hearlier, fun lexeme hlexeme hplain => ?_⟩
  rcases List.eq_nil_or_concat out with rfl | ⟨init, newline, rfl⟩
  · simp at hlexeme
  rw [List.concat_eq_append] at hlexeme h
  have hnewline : newline.token = .newline :=
    (h.inOrder hread).2 hline newline.token (by simp)
  -- The newline put out last was read, so it stands in the text before this line.
  have hmem : newline ∈ read := by
    rcases h.origin newline (by simp) with hmem | ⟨hmark, -⟩
    · exact hmem
    · simp [hnewline] at hmark
  obtain ⟨front, ending, after, hcs, hwritten, hspan⟩ := hread.stands newline hmem
  rw [hnewline] at hwritten
  have hstop : byteLength (front ++ ending) = newline.span.stop := by
    rw [hspan, byteLength_append]
  have hprefix : front ++ ending <+: earlier ++ head := by
    obtain ⟨rest, hrest⟩ := hbefore
    refine prefix_of_byteLength_le (hcs.symm.trans hrest.symm) ?_
    rw [hstop]
    exact hpast newline hmem
  have hle := byteLength_le_of_prefix hprefix
    (by rw [List.getLast?_append, hwritten.getLast?, Option.some_or]) hhead
  rcases List.mem_append.mp hlexeme with hlexeme | hlexeme
  · have horder := (List.pairwise_append.mp (h.pairwise hread)).2.2 lexeme hlexeme newline (by simp)
    have hbounds := (hread.stands newline hmem).bounds.1
    omega
  · rw [List.mem_singleton.mp hlexeme, hnewline] at hplain
    simp [Token.isMark] at hplain

/-- Every token that is read is put out, or is a newline that may be dropped.  Nothing
that is put out reaches into such a newline. -/
theorem Steps.kept_or_dropped
    (hread : Scanned cs read) (hclosed : state.brackets = []) (hlexeme : lexeme ∈ read) :
    lexeme ∈ out ∨ ∃ before text after, cs = before ++ text ++ after ∧
      lexeme.span = ⟨byteLength before, byteLength before + byteLength text⟩ ∧
      DroppedEnd out before text ∧ ∀ other ∈ out, other.span.stop ≤ byteLength before ∨
        byteLength before + byteLength text ≤ other.span.start := by
  obtain ⟨front, back, rfl⟩ := List.append_of_mem hlexeme
  obtain ⟨mid, next, out₁, more, out₂, lines₁, ended, lines₂, h₁, hstep, h₂, rfl⟩ := h.cut rfl
  obtain ⟨hread₁, hread₂, hbefore, hafter⟩ := hread.split
  have hlower : ∀ other ∈ out₁, other.span.stop ≤ lexeme.span.start := by
    intro other hother
    obtain ⟨source, hsource, -, -, hstop⟩ := h₁.within hread₁ other hother
    have := hbefore source hsource
    omega
  have hupper : ∀ other ∈ out₂, lexeme.span.stop ≤ other.span.start := by
    intro other hother
    obtain ⟨source, hsource, hstart, -⟩ := h₂.within hread₂ other hother
    have := hafter source hsource
    omega
  by_cases hnewline : lexeme.token = .newline
  · obtain ⟨before, text, after, hcs, hwritten, hspan⟩ :=
      hread.stands lexeme (by simp)
    rw [hnewline] at hwritten
    rw [hspan] at hlower hupper
    have hfree : ∀ other ∈ out₁ ++ ([] ++ out₂), other.span.stop ≤ byteLength before ∨
        byteLength before + byteLength text ≤ other.span.start := by
      intro other hother
      rcases List.mem_append.mp hother with hother | hother
      · exact Or.inl (hlower other hother)
      · exact Or.inr (hupper other (by simpa using hother))
    cases hstep with
    | ending _ hline hclosed => exact Or.inl (by simp)
    | first hother _ _ _ => exact absurd hnewline hother
    | further hother _ _ => exact absurd hnewline hother
    | blank _ hline =>
      refine Or.inr ⟨before, text, after, hcs, hspan, ⟨hwritten, Or.inl ?_⟩, hfree⟩
      rw [hspan] at hbefore
      have hprefix : before <+: cs := ⟨text ++ after, by rw [hcs, List.append_assoc]⟩
      obtain ⟨earlier, head, hhead, hnone, hearlier, hstop⟩ :=
        h₁.onBlankLine hread₁ hline hprefix hbefore
      refine ⟨earlier, head, hhead, hnone, hearlier, fun other hother hplain => ?_⟩
      rcases List.mem_append.mp hother with hother | hother
      · exact Or.inl (hstop other hother hplain)
      · exact Or.inr (hupper other (by simpa using hother))
    | inner _ hopen =>
      refine Or.inr ⟨before, text, after, hcs, hspan, ⟨hwritten, Or.inr ?_⟩, hfree⟩
      obtain ⟨b, left, opener, inside, closer, right,
          hout, hopener, hcloser, hinside, hin₁, hin₂⟩ :=
        h₁.around h₂ (fun other hother => (hread₁.stands other hother).token_ne)
          (fun other hother => (hread₂.stands other hother).token_ne) hopen hclosed
      exact ⟨b, left, opener, inside, closer, right, by simpa using hout, hopener, hcloser, hinside,
        hlower opener hin₁, hupper closer hin₂⟩
  · cases hstep with
    | blank hother _ => exact absurd hother hnewline
    | inner hother _ => exact absurd hother hnewline
    | ending hother _ _ => exact absurd hother hnewline
    | first _ _ _ _ => exact Or.inl (by simp)
    | further _ _ _ => exact Or.inl (by simp)

/-- Each byte of a text belongs to a token that is put out, or to a gap or a dropped
newline, into which nothing that is put out reaches. -/
theorem Steps.covered
    (hscan : scan cs = .ok read) (hclosed : state.brackets = []) {k : Nat}
    (hk : k < byteLength cs) : (∃ lexeme ∈ out, lexeme.span.start ≤ k ∧ k < lexeme.span.stop) ∨
      ∃ before text after, cs = before ++ text ++ after ∧
        (Gap text after ∨ DroppedEnd out before text) ∧
        byteLength before ≤ k ∧ k < byteLength before + byteLength text ∧
        ∀ lexeme ∈ out, lexeme.span.stop ≤ byteLength before ∨
          byteLength before + byteLength text ≤ lexeme.span.start := by
  have hread := scan_scanned hscan
  rcases (scan_scans hscan).covers k hk with
    ⟨lexeme, hlexeme, hlow, hhigh⟩ | ⟨before, text, after, hcs, hgap, hlow, hhigh, hfree⟩
  · rw [Nat.zero_add] at hlow hhigh
    rcases h.kept_or_dropped hread hclosed hlexeme with
      hkept | ⟨before, text, after, hcs, hspan, hdropped, hfree⟩
    · exact Or.inl ⟨lexeme, hkept, hlow, hhigh⟩
    · rw [hspan] at hlow hhigh
      exact Or.inr ⟨before, text, after, hcs, Or.inr hdropped, hlow, hhigh, hfree⟩
  · simp only [Nat.zero_add] at hfree
    refine Or.inr ⟨before, text, after, hcs, Or.inl hgap, hlow, hhigh, fun other hother => ?_⟩
    rcases h.origin other hother with hmem | ⟨-, source, hsource, hspan⟩
    · exact hfree other hmem
    · -- A mark stands right before a token that was read, so it is free where that is.
      have hbounds := (hread.stands source hsource).bounds.1
      have := hfree source hsource
      rw [hspan]
      simp only [Span.point]
      omega

omit h

/-- What the end of a text adds covers nothing. -/
theorem finish_point {size : Nat} {rest : TokenStream} (h : finish size state = .ok rest) :
    ∀ lexeme ∈ rest.tokens, lexeme.span = .point size := by
  intro lexeme hlexeme
  obtain ⟨-, ⟨-, rfl⟩ | ⟨line, -, rfl⟩⟩ := finish_cases h
  · rw [List.eq_of_mem_replicate hlexeme]
  · rcases List.mem_cons.mp hlexeme with rfl | hlexeme
    · rfl
    · rw [List.eq_of_mem_replicate hlexeme]

end Layout

/-! ### The whole stream -/

/-- More marks behind a stream do not change why a line ending was dropped. -/
theorem DroppedEnd.append {tokens marks : List Lexeme} {before text : List Char}
    (h : DroppedEnd tokens before text) (hmarks : ∀ lexeme ∈ marks, lexeme.token.isMark = true) :
    DroppedEnd (tokens ++ marks) before text := by
  obtain ⟨hend, ⟨earlier, head, hbefore, hhead, hearlier, hstop⟩ |
    ⟨b, front, opener, inside, closer, back, rfl, hrest⟩⟩ := h
  · refine ⟨hend, Or.inl ⟨earlier, head, hbefore, hhead, hearlier, fun lexeme hlexeme hplain => ?_⟩⟩
    rcases List.mem_append.mp hlexeme with hlexeme | hlexeme
    · exact hstop lexeme hlexeme hplain
    · rw [hmarks lexeme hlexeme] at hplain
      simp at hplain
  · exact ⟨hend, Or.inr ⟨b, front, opener, inside, closer, back ++ marks, by simp, hrest⟩⟩

/-- A token that was read is written in the text where its span says. -/
theorem Lexeme.StandsIn.slice {cs : List Char} (h : lexeme.StandsIn cs) :
    ∃ text, lexeme.token.WrittenAs text ∧ sliceBytes? cs lexeme.span = some text := by
  obtain ⟨before, text, after, rfl, hwritten, hspan⟩ := h
  exact ⟨text, hwritten, by rw [hspan, sliceBytes?_append]⟩

theorem Token.WrittenAs.eq_text {token : Token} {text : List Char} (h : token.WrittenAs text)
    (hplain : token.isMark = false) : text = token.text.toList := by
  cases token with
  | newline => simp [Token.isMark] at hplain
  | indent => simp [Token.isMark] at hplain
  | dedent => simp [Token.isMark] at hplain
  | name => exact h.1
  | _ => exact h

/-- Where a token of a stream comes from: the text, a change of indentation, or the
end of a text that ends in the middle of a line. -/
theorem tokenize_cases {source : String} {stream : TokenStream}
    (h : tokenize source = .ok stream) (hlexeme : lexeme ∈ stream.tokens) :
    lexeme ∈ lexemesFrom 0 (pieces source.toList) ∧ lexeme.StandsIn source.toList ∨
      ((lexeme.token = .indent ∨ lexeme.token = .dedent) ∧ ∃ k, lexeme.span = .point k) ∨
      (lexeme.token = .newline ∧ lexeme.span = .point (byteLength source.toList) ∧
        ∃ before after, stream.tokens = before ++ lexeme :: after ∧
          ∀ later ∈ after, later.token = .dedent) := by
  obtain ⟨lexemes, last, out, lines, rest, hscan, hsteps, hfinish, rfl⟩ := tokenize_steps h
  rcases List.mem_append.mp hlexeme with hlexeme | hlexeme
  · rcases hsteps.origin lexeme hlexeme with hmem | ⟨hmark, other, -, hspan⟩
    · exact Or.inl ⟨(scan_pieces hscan).2 ▸ hmem, (scan_scanned hscan).stands lexeme hmem⟩
    · exact Or.inr (Or.inl ⟨hmark, _, hspan⟩)
  · obtain ⟨-, ⟨-, rfl⟩ | ⟨line, -, rfl⟩⟩ := Layout.finish_cases hfinish
    · rw [List.eq_of_mem_replicate hlexeme]
      exact Or.inr (Or.inl ⟨Or.inr rfl, _, rfl⟩)
    · rcases List.mem_cons.mp hlexeme with rfl | hlexeme
      · refine Or.inr (Or.inr ⟨rfl, rfl, out, _, rfl, fun later hlater => ?_⟩)
        rw [List.eq_of_mem_replicate hlater]
      · rw [List.eq_of_mem_replicate hlexeme]
        exact Or.inr (Or.inl ⟨Or.inr rfl, _, rfl⟩)

/-- Every name in a token stream is an identifier. -/
theorem tokenize_isIdentifier {source : String} {stream : TokenStream}
    (h : tokenize source = .ok stream) :
    ∀ lexeme ∈ stream.tokens, ∀ text, lexeme.token = .name text → IsIdentifier text.toList := by
  intro lexeme hlexeme text hname
  rcases tokenize_cases h hlexeme with ⟨-, hstands⟩ | ⟨hmark, -⟩ | ⟨hmark, -⟩
  · obtain ⟨chars, hwritten, -⟩ := hstands.slice
    rw [hname] at hwritten
    exact hwritten.1 ▸ hwritten.2
  · simp [hname] at hmark
  · simp [hname] at hmark

section

variable {source : String} {stream : TokenStream} (h : tokenize source = .ok stream)

include h

theorem tokenize_inside : ∀ lexeme ∈ stream.tokens, lexeme.span.start ≤ lexeme.span.stop ∧
    lexeme.span.stop ≤ byteLength source.toList := by
  obtain ⟨lexemes, last, out, lines, rest, hscan, hsteps, hfinish, rfl⟩ := tokenize_steps h
  intro lexeme hlexeme
  rcases List.mem_append.mp hlexeme with hlexeme | hlexeme
  · obtain ⟨other, hother, -, hle, hstop⟩ := hsteps.within (scan_scanned hscan) lexeme hlexeme
    have := ((scan_scanned hscan).stands other hother).bounds.2
    omega
  · rw [Layout.finish_point hfinish lexeme hlexeme]
    exact ⟨Nat.le_refl _, Nat.le_refl _⟩

theorem tokenize_ordered : stream.tokens.Pairwise fun a b => a.span.stop ≤ b.span.start := by
  obtain ⟨lexemes, last, out, lines, rest, hscan, hsteps, hfinish, rfl⟩ := tokenize_steps h
  have hread := scan_scanned hscan
  have hpoint := Layout.finish_point hfinish
  refine List.pairwise_append.mpr ⟨hsteps.pairwise hread, ?_, fun a ha b hb => ?_⟩
  · refine List.Pairwise.imp_of_mem (fun ha hb _ => ?_) (List.pairwise_of_forall fun _ _ => trivial)
    rw [hpoint _ ha, hpoint _ hb]
    exact Nat.le_refl _
  · obtain ⟨other, hother, -, -, hstop⟩ := hsteps.within hread a ha
    have := (hread.stands other hother).bounds.2
    rw [hpoint b hb]
    simp only [Span.point]
    omega

/-- A token that is no mark of the layout was read in the text. -/
theorem tokenize_scanned (hlexeme : lexeme ∈ stream.tokens) (hplain : lexeme.token.isMark = false) :
    lexeme ∈ lexemesFrom 0 (pieces source.toList) ∧
      sliceBytes? source.toList lexeme.span = some lexeme.token.text.toList := by
  rcases tokenize_cases h hlexeme with ⟨hmem, hstands⟩ | ⟨hmark | hmark, -⟩ | ⟨hmark, -⟩
  · obtain ⟨text, hwritten, hslice⟩ := hstands.slice
    exact ⟨hmem, hslice.trans (hwritten.eq_text hplain ▸ rfl)⟩
  all_goals simp [hmark, Token.isMark] at hplain

/-- What is read and is no newline is passed on. -/
theorem tokenize_keeps (hlexeme : lexeme ∈ lexemesFrom 0 (pieces source.toList))
    (hother : lexeme.token ≠ .newline) : lexeme ∈ stream.tokens := by
  obtain ⟨lexemes, last, out, lines, rest, hscan, hsteps, -, rfl⟩ := tokenize_steps h
  rw [← (scan_pieces hscan).2] at hlexeme
  have hmem : lexeme ∈ out.filter (!·.token.isMark) := by
    rw [hsteps.unmarked (scan_scanned hscan), List.mem_filter]
    exact ⟨hlexeme, decide_eq_true hother⟩
  exact List.mem_append_left _ (List.mem_of_mem_filter hmem)

end

/--
**A token stream accounts for every byte of its text.**  Tokens stand in order
inside the text and are written as it says; marks that were put in cover nothing;
and what no token covers is a gap, or a line ending on a blank line or inside
brackets.
-/
theorem tokenize_lossless {source : String} {stream : TokenStream}
    (h : tokenize source = .ok stream) : Lossless source.toList stream.tokens := by
  have hcases (lexeme : Lexeme) (hlexeme : lexeme ∈ stream.tokens) := tokenize_cases h hlexeme
  refine ⟨tokenize_inside h, tokenize_ordered h,
    fun lexeme hlexeme hplain => (tokenize_scanned h hlexeme hplain).2, ?indents,
    ?newlines, ?covered⟩
  case indents =>
    intro lexeme hlexeme hmark
    rcases hcases lexeme hlexeme with ⟨-, hstands⟩ | ⟨-, k, hspan⟩ | ⟨hnewline, -⟩
    · have hne := hstands.token_ne
      rcases hmark with hmark | hmark
      · exact absurd hmark hne.1
      · exact absurd hmark hne.2
    · rw [hspan]
      rfl
    · simp [hnewline] at hmark
  case newlines =>
    intro lexeme hlexeme hnewline
    rcases hcases lexeme hlexeme with ⟨-, hstands⟩ | ⟨hmark, -⟩ | ⟨-, hspan, hlast⟩
    · obtain ⟨text, hwritten, hslice⟩ := hstands.slice
      rw [hnewline] at hwritten
      exact Or.inl ⟨text, hwritten, hslice⟩
    · simp [hnewline] at hmark
    · exact Or.inr ⟨hspan, hlast⟩
  case covered =>
    obtain ⟨lexemes, last, out, lines, rest, hscan, hsteps, hfinish, rfl⟩ := tokenize_steps h
    intro k hk
    rcases hsteps.covered hscan (Layout.finish_cases hfinish).1 hk with
      ⟨lexeme, hlexeme, hk⟩ | ⟨before, text, after, hcs, hskipped, hlow, hhigh, hfree⟩
    · exact Or.inl ⟨lexeme, List.mem_append_left _ hlexeme, hk⟩
    · refine Or.inr ⟨before, text, after, hcs, ?_, hlow, hhigh, fun other hother => ?_⟩
      · exact hskipped.imp_right fun hdropped => hdropped.append (Layout.finish_isMark hfinish)
      · rcases List.mem_append.mp hother with hother | hother
        · exact hfree other hother
        · -- The marks at the end stand after everything else.
          rw [Layout.finish_point hfinish other hother, hcs, byteLength_append, byteLength_append]
          exact Or.inr (Nat.le_add_right _ _)

/-- Every kind of gap, a blank line, a newline in brackets, and no last newline. -/
theorem tokenize_lossless_gaps :
    ∃ stream, tokenize "\ufeffx = [1, # one\r\n 2]\n\n\ty = \\\n\x0c3" = .ok stream ∧
      Lossless "\ufeffx = [1, # one\r\n 2]\n\n\ty = \\\n\x0c3".toList stream.tokens := by
  have hok : (tokenize "\ufeffx = [1, # one\r\n 2]\n\n\ty = \\\n\x0c3").toOption.isSome = true := by
    decide +kernel
  cases hstream : tokenize "\ufeffx = [1, # one\r\n 2]\n\n\ty = \\\n\x0c3" with
  | error errors =>
    rw [hstream] at hok
    simp [Except.toOption] at hok
  | ok stream => exact ⟨stream, rfl, tokenize_lossless hstream⟩

end Scrutiny
