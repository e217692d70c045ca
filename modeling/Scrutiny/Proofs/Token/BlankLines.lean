/-
Lines that hold no token.

A line of white space, with or without a comment, may be put behind any newline token: the
tokens and the logical lines stay as they are, and the lines below are counted one further
down (`tokenize_insert_blank`).

The danger is in the scan.  A literal that is tried in a line above could be read on into the
new one.  But the new line has no quote, so whoever looks for the end of a literal stops
before it, passes over it as over any other part of the body, or gives up in it
(`Quoted.Literal.At.remove`).  What was closed before is closed at the same place, and what was
not still is not.  For the layout there is one newline more, and right behind another.
-/
import Scrutiny.Proofs.Token.Boundaries
import Scrutiny.Proofs.Token.Resemblance

namespace Scrutiny

/-! ### Looking for the end of a literal across lines -/

namespace Quoted

variable {close? : List Char → Option Nat} {s line : List Char}

/-- What whole lines are to a reader that looks for the end of a literal: it stops in them,
whatever comes after, or passes over them. -/
inductive Crosses (close? : List Char → Option Nat) (s : List Char) : Prop
  | stops (found : Option Nat) (hfits : ∀ n ∈ found, n ≤ s.length)
      (hfound : ∀ after, close? (s ++ after) = found)
  | passes (hafter : ∀ after, close? (s ++ after) = (close? after).map (· + s.length))

namespace Crosses

/-- Characters in front that are passed over. -/
theorem append (front : List Char) (h : Crosses close? s) (hfront : ∀ after,
      close? (front ++ (s ++ after)) = (close? (s ++ after)).map (· + front.length)) :
    Crosses close? (front ++ s) := by
  cases h with
  | stops found hfits hfound =>
    refine .stops (found.map (· + front.length)) (fun n hn => ?_) fun after => ?_
    · obtain ⟨m, hm, rfl⟩ := Option.map_eq_some_iff.mp hn
      have := hfits m hm
      rw [List.length_append]
      omega
    · rw [List.append_assoc, hfront, hfound]
  | passes hafter =>
    refine .passes fun after => ?_
    have hsum : (· + front.length) ∘ (· + s.length) = (· + (front ++ s).length) := by
      funext n
      simp only [Function.comp_apply, List.length_append]
      omega
    rw [List.append_assoc, hfront, hafter, Option.map_map, hsum]

/-- **What is found behind lines that do not close a literal is found without them.** -/
theorem remove (h : Crosses close? s) (hline : Crosses close? line) (hnone : close? line = none)
    {after : List Char} (hfound : (close? (s ++ (line ++ after))).isSome = true) :
    (close? (s ++ after)).isSome = true := by
  cases h with
  | stops found _ hsame => rwa [hsame] at hfound ⊢
  | passes hafter =>
    rw [hafter, Option.isSome_map] at hfound ⊢
    cases hline with
    | stops found _ hsame =>
      have hself := hsame []
      rw [List.append_nil, hnone] at hself
      simp [hsame, ← hself] at hfound
    | passes hbehind => rwa [hbehind, Option.isSome_map] at hfound

end Crosses

variable {delimiter forbidden : List Char}

/-- No unit goes over the end of a line, and no delimiter does. -/
theorem Finds.crosses (h : Finds close? delimiter forbidden) (hdelimiter : '\n' ∉ delimiter)
    (hs : WholeLines s) : Crosses close? s := by
  induction s using units_induction with
  | nil => exact .passes fun after => by simp
  | alone => exact absurd rfl (hs.ne_singleton (by decide))
  | cons unit rest hunit ih =>
  by_cases hat : delimiter <+: unit ++ rest
  · obtain ⟨more, hmore⟩ := hat
    rw [← hmore]
    exact .stops (some delimiter.length) (by simp) fun after => by rw [List.append_assoc, h.found]
  by_cases hhead : ∀ c ∈ unit.head?, c ∉ forbidden
  · refine (ih (by simpa using hs.drop unit.length)).append unit fun after => ?_
    have hends : EndsLine (unit ++ rest) := hs.resolve_left (by simp [hunit.ne_nil])
    refine h.passed unit _ ?_ ?_ hhead
    · cases rest with
      | cons c rest => exact hunit.of_head rfl
      | nil =>
        cases hunit with
        | ending => exact .ending _
        | plain hc => exact .plain hc
        | @escape c _ hc =>
          refine .escape fun hreturn => ?_
          simp [EndsLine, hreturn] at hends
    · intro hinit
      rw [← List.append_assoc] at hinit
      have hlonger : ¬ delimiter.length ≤ (unit ++ rest).length := fun hle =>
        hat (List.prefix_of_prefix_length_le hinit (List.prefix_append _ after) hle)
      have hwithin :=
        List.prefix_of_prefix_length_le (List.prefix_append (unit ++ rest) after) hinit (by omega)
      exact hdelimiter (hwithin.subset hends.mem)
  · refine .stops none (by simp) fun after => ?_
    obtain ⟨c, hc, hforbidden⟩ : ∃ c ∈ unit.head?, c ∈ forbidden := by simpa using hhead
    obtain ⟨more, rfl⟩ : ∃ more, unit = c :: more := by
      cases unit with
      | nil => cases hc
      | cons d more => exact ⟨more, by simpa using hc⟩
    exact h.broken c _ hforbidden

/-- Whole lines without a quote. -/
structure Quoteless (line : List Char) : Prop where
  ends : EndsLine line
  plain : ∀ c ∈ line, isQuote c = false

variable {after : List Char}

/-- How the end of a literal is looked for. -/
theorem Literal.IsRead.finds {l : Literal} (h : l.IsRead) :
    ∃ close?, Finds close? l.delimiter l.forbidden := by
  cases hl : l.isTriple with
  | true =>
    exact ⟨closeThree? l.quote, by simpa [delimiter, forbidden, hl] using closeThree?_finds h.quote⟩
  | false =>
    exact ⟨closeOne? l.quote, by simpa [delimiter, forbidden, hl] using closeOne?_finds h.quote⟩

/-- A literal that is read across a line without quotes has one in its place without it. -/
theorem Literal.At.remove (hline : Quoteless line) (hs : EndsLine s) {l : Literal}
    (h : l.At (s ++ (line ++ after))) :
    ∃ other : Literal, other.isTriple = l.isTriple ∧ other.At (s ++ after) := by
  obtain ⟨⟨hletter, hfew, hquote, hcloses⟩, rest, hrest⟩ := h
  obtain ⟨close?, hfinds⟩ := Literal.IsRead.finds ⟨hletter, hfew, hquote, hcloses⟩
  have hquotes : ∀ c ∈ l.delimiter, c = l.quote := by
    cases hl : l.isTriple <;> simp [delimiter, hl]
  have hne : l.delimiter ≠ [] := by
    cases hl : l.isTriple <;> simp [delimiter, hl]
  have hnewline : '\n' ∉ l.delimiter := fun hmem => isQuote_ne_newline hquote (hquotes _ hmem).symm
  have hopening : '\n' ∉ l.letters ++ l.delimiter := by
    rw [List.mem_append, not_or]
    exact ⟨fun hmem => by simpa [isMarkLetter] using hletter _ hmem, hnewline⟩
  -- What opens the literal is on the first line, and the search begins behind it.
  obtain ⟨t, rfl⟩ : l.letters ++ l.delimiter <+: s := by
    have hfront : l.letters ++ l.delimiter <+: s ++ (line ++ after) :=
      ⟨l.body ++ (l.delimiter ++ rest), by rw [← hrest]; simp [chars]⟩
    refine List.prefix_of_prefix_length_le hfront (List.prefix_append s _) ?_
    refine Nat.le_of_not_le fun hle => hopening ?_
    exact (List.prefix_of_prefix_length_le (List.prefix_append s _) hfront hle).subset hs.mem
  have hbehind : t ++ (line ++ after) = l.body ++ (l.delimiter ++ rest) := by
    simpa [chars] using hrest.symm
  have hwhole : WholeLines t := by
    simpa using WholeLines.drop (Or.inr hs) (l.letters ++ l.delimiter).length
  have hnone : close? line = none := by
    cases hclose : close? line with
    | none => rfl
    | some n =>
      obtain ⟨body, more, rfl, -, -⟩ := hfinds.sound hne hclose
      obtain ⟨c, tail, hdelimiter⟩ := List.exists_cons_of_ne_nil hne
      have hplain := hline.plain c (by simp [hdelimiter])
      rw [hquotes c (by simp [hdelimiter]), hquote] at hplain
      cases hplain
  have hsome : (close? (t ++ after)).isSome = true := by
    refine (hfinds.crosses hnewline hwhole).remove
      (hfinds.crosses hnewline (Or.inr hline.ends)) hnone ?_
    rw [hbehind, hfinds.complete hne hcloses rest, Option.isSome_some]
  obtain ⟨n, hn⟩ := Option.isSome_iff_exists.mp hsome
  obtain ⟨body, more, hbody, -, hclosed⟩ := hfinds.sound hne hn
  refine ⟨{ l with body := body }, rfl, ⟨hletter, hfew, hquote, hclosed⟩, more, ?_⟩
  simp [chars, delimiter, hbody]

theorem length?_insert (hline : Quoteless line) (hs : EndsLine s)
    (hfits : ∀ n ∈ length? (s ++ after), n ≤ s.length) :
    length? (s ++ (line ++ after)) = length? (s ++ after) := by
  cases hread : length? (s ++ after) with
  | none =>
    rw [length?_eq_none_iff] at hread ⊢
    intro l hat
    obtain ⟨other, -, hother⟩ := hat.remove hline hs
    exact hread other hother
  | some n =>
    obtain ⟨l, hat, hchoice, rfl⟩ := length?_eq_some_iff.mp hread
    have hfront := hat.of_append (hfits _ hread)
    refine length?_eq_some_iff.mpr
      ⟨l, hfront.append _, fun hsingle triple htriple hthree => ?_, rfl⟩
    obtain ⟨other, hsame, hother⟩ := hthree.remove hline hs
    exact hchoice hsingle other (hsame.trans htriple) hother

end Quoted

/-! ### Pieces in front of a line -/

variable {s after line : List Char}

theorem lineEndLength?_le {cs : List Char} {n : Nat} (h : lineEndLength? cs = some n) :
    n ≤ cs.length := by
  unfold lineEndLength? at h
  split at h
  · cases h
    simp
  · cases h
    simp
  · cases h

theorem gapLength?_le {cs : List Char} {n : Nat} (h : gapLength? cs = some n) : n ≤ cs.length := by
  unfold gapLength? at h
  split at h
  · cases h
  rename_i c cs
  have hrun (p : Char → Bool) : runLength p cs ≤ cs.length := (List.takeWhile_prefix p).length_le
  rw [List.length_cons]
  split at h
  · cases h
    have := hrun isSpacing
    omega
  split at h
  · cases h
    have := hrun fun d => d != '\r' && d != '\n'
    omega
  split at h
  · obtain ⟨m, hm, rfl⟩ := Option.map_eq_some_iff.mp h
    have := lineEndLength?_le hm
    omega
  split at h
  · cases h
    omega
  · cases h

/-- A symbol is found by its length, but none reaches behind the end of a line. -/
theorem Symbol.read?_le (hs : EndsLine s) {symbol : Symbol} {n : Nat}
    (h : read? s = some (symbol, n)) : n ≤ s.length := by
  by_contra hlong
  have htext := (read?_text h).2
  rw [List.take_of_length_le (by omega)] at htext
  exact symbol.oneLine.2 (htext ▸ hs.mem)

theorem readPiece_le (hs : EndsLine s) (hkind : (readPiece s).1 ≠ .fault) :
    (readPiece s).2 ≤ s.length := by
  rcases hread : readPiece s with ⟨kind, n⟩
  cases kind with
  | fault => simp [hread] at hkind
  | gap => exact gapLength?_le (gapLength?_of_readPiece hread)
  | token t =>
    cases ReadAs.of_readToken? (readToken?_of_readPiece hread) with
    | lineEnd hend => exact lineEndLength?_le hend
    | literal hquoted => exact Quoted.length?_le hquoted
    | word hword => exact wordLength?_confines.le hword
    | numeral hnumeral => exact Numeral.length?_confines.le hnumeral
    | symbol hsymbol => exact Symbol.read?_le hs hsymbol

/-- **Pieces that end with a line are read with another text behind them**, if string
literals are. -/
theorem pieces_front (other : List Char) (hs : WholeLines s)
    (hquoted : ∀ t, EndsLine t → (∀ n ∈ Quoted.length? (t ++ after), n ≤ t.length) →
      Quoted.length? (t ++ other) = Quoted.length? (t ++ after))
    {front back : List Piece} (hclean : ∀ p ∈ front, p.kind ≠ .fault)
    (hcut : pieces (s ++ after) = front ++ back) (hfront : front.flatMap Piece.chars = s) :
    pieces (s ++ other) = front ++ pieces other ∧ pieces after = back := by
  induction front generalizing s with
  | nil =>
    subst hfront
    exact ⟨rfl, hcut⟩
  | cons p front ih =>
    cases s with
    | nil =>
      refine absurd (List.append_eq_nil_iff.mp hfront).1 ?_
      exact pieces_nonempty _ p (by rw [hcut]; simp)
    | cons c rest =>
      have hends : EndsLine (c :: rest) := hs.resolve_left (List.cons_ne_nil c rest)
      rcases hread : readPiece (c :: rest ++ after) with ⟨kind, n⟩
      rw [List.cons_append] at hread
      rw [List.cons_append, pieces_cons, hread, List.cons_append, List.cons.injEq] at hcut
      obtain ⟨rfl, hlater⟩ := hcut
      rw [List.forall_mem_cons] at hclean
      obtain ⟨hkind, hclean⟩ := hclean
      have hlength := congrArg List.length hfront
      simp only [List.flatMap_cons, List.length_append, List.length_cons, List.length_take]
        at hlength
      have hfits : n ≤ (c :: rest).length := by
        by_cases hafter : after = []
        · subst hafter
          rw [List.append_nil] at hread
          have hle := readPiece_le hends (by rwa [hread])
          rwa [hread] at hle
        · have hsome := List.length_pos_of_ne_nil hafter
          rw [List.length_cons]
          omega
      -- So it is the first piece with the other text behind, too.
      have hsame := readPiece_congr after other hends (hquoted _ hends) fun _ => by
        rwa [List.cons_append, hread]
      rw [List.cons_append, List.cons_append, hread] at hsame
      have hother : readPiece (c :: (rest ++ other)) = (kind, n) :=
        Prod.ext hsame.1 (hsame.2 hkind)
      rw [List.length_cons] at hfits
      have hle : n - 1 ≤ rest.length := by omega
      rw [List.drop_append_of_le_length hle] at hlater
      rw [List.take_append_of_le_length hle] at hfront ⊢
      have hrest : rest.take (n - 1) ++ front.flatMap Piece.chars = rest :=
        (List.cons.inj hfront).2
      have hboth := ih (hs.tail.drop _) hclean hlater
        (List.append_cancel_left (hrest.trans (List.take_append_drop _ rest).symm))
      rw [List.cons_append, pieces_cons, hother, List.take_append_of_le_length hle,
        List.drop_append_of_le_length hle, hboth.1]
      exact ⟨rfl, hboth.2⟩

/-! ### Lines without tokens -/

/-- A line without tokens: white space, and perhaps a comment that has no quote in it. -/
inductive BlankLine : List Char → Prop
  | bare {run : List Char} (hrun : ∀ c ∈ run, isSpacing c = true) : BlankLine (run ++ ['\n'])
  | comment {run text : List Char} (hrun : ∀ c ∈ run, isSpacing c = true)
      (htext : ∀ c ∈ text, c ≠ '\r' ∧ c ≠ '\n' ∧ Quoted.isQuote c = false) :
      BlankLine (run ++ '#' :: text ++ ['\n'])

theorem isSpacing_cases {c : Char} (h : isSpacing c = true) : c = ' ' ∨ c = '\t' ∨ c = '\x0c' := by
  simpa [isSpacing, or_assoc] using h

namespace BlankLine

theorem quoteless (h : BlankLine line) : Quoted.Quoteless line := by
  have hspacing {run : List Char} (hrun : ∀ c ∈ run, isSpacing c = true) :
      ∀ c ∈ run, Quoted.isQuote c = false := by
    intro c hc
    rcases isSpacing_cases (hrun c hc) with rfl | rfl | rfl <;> rfl
  have hnewline : ∀ c ∈ ['\n'], Quoted.isQuote c = false := List.forall_mem_singleton.mpr rfl
  cases h with
  | bare hrun =>
    exact ⟨List.getLast?_concat, List.forall_mem_append.mpr ⟨hspacing hrun, hnewline⟩⟩
  | @comment _ text hrun htext =>
    have hcomment : ∀ c ∈ '#' :: text, Quoted.isQuote c = false :=
      List.forall_mem_cons.mpr ⟨rfl, fun c hc => (htext c hc).2.2⟩
    exact ⟨List.getLast?_concat, List.forall_mem_append.mpr
      ⟨List.forall_mem_append.mpr ⟨hspacing hrun, hcomment⟩, hnewline⟩⟩

/-- It is one line. -/
theorem count_newline (h : BlankLine line) : line.count '\n' = 1 := by
  have hspacing {run : List Char} (hrun : ∀ c ∈ run, isSpacing c = true) : run.count '\n' = 0 :=
    List.count_eq_zero.mpr fun hmem => by simpa [isSpacing] using hrun '\n' hmem
  cases h with
  | bare hrun => simp [List.count_append, hspacing hrun]
  | @comment run text hrun htext =>
    have hcomment : text.count '\n' = 0 :=
      List.count_eq_zero.mpr fun hmem => (htext '\n' hmem).2.1 rfl
    simp [List.count_append, hspacing hrun, hcomment]

/-- All that is read in it is its end. -/
theorem cut (h : BlankLine line) {offset : Nat} {lexemes : List Lexeme}
    (hafter : Cut (offset + byteLength line) after lexemes) :
    ∃ extra, extra.token = .newline ∧ Cut offset (line ++ after) (extra :: lexemes) := by
  have hnewline : byteLength ['\n'] = 1 := rfl
  cases h with
  | @bare run hrun =>
    rw [byteLength_append, hnewline, ← Nat.add_assoc] at hafter
    have hline := Cut.spacing hrun rfl hafter.newline
    exact ⟨_, rfl, by simpa using hline⟩
  | @comment run text hrun htext =>
    have hstops : runLength (fun d => d != '\r' && d != '\n') (text ++ '\n' :: after)
        = text.length :=
      runLength_of_head (fun c hc => by simp [(htext c hc).1, (htext c hc).2.1]) (by simp)
    have hgap : gapLength? ('#' :: text ++ '\n' :: after) = some ('#' :: text).length := by
      simp [gapLength?, isSpacing, hstops, Nat.add_comm]
    rw [byteLength_append, byteLength_append, hnewline, ← Nat.add_assoc, ← Nat.add_assoc] at hafter
    have hline := Cut.spacing hrun rfl (Cut.gap (List.cons_ne_nil '#' text) hgap hafter.newline)
    exact ⟨_, rfl, by simpa using hline⟩

end BlankLine

/-! ### The texts with and without the line -/

variable {a b : List Char}

/-- The line that begins behind a newline is the first of those below. -/
theorem LineTable.line_lt_of_endsLine (ha : EndsLine a) (b : List Char) {k : Nat}
    (hk : k < byteLength a) : (ofText (a ++ b)).line k < (ofText (a ++ b)).line (byteLength a) := by
  obtain ⟨body, rfl⟩ := ha.eq_concat
  have hnewline : byteLength ['\n'] = 1 := rfl
  rw [byteLength_append, hnewline] at hk ⊢
  exact Nat.lt_of_le_of_lt (line_mono _ (Nat.le_of_lt_succ hk)) (line_lt_of_newline [] rfl)

/-- The lines from `first` on, counted one further down. -/
def lowerFrom (first n : Nat) : Nat := if first ≤ n then n + 1 else n

/-- What stands above the line is the same. -/
theorem Lexeme.resembles_above (ha : EndsLine a) (line b : List Char) {lexeme : Lexeme}
    (hlexeme : lexeme.span.start < byteLength a) :
    lexeme.Resembles (a ++ b) (a ++ (line ++ b))
      (lowerFrom ((LineTable.ofText (a ++ b)).line (byteLength a))) lexeme where
  token := rfl
  head := by rw [lineHead_left _ hlexeme.le, lineHead_left _ hlexeme.le]
  line := by
    have habove := LineTable.line_lt_of_endsLine ha b hlexeme
    rw [lowerFrom, if_neg (Nat.not_le_of_lt habove), LineTable.line_left _ hlexeme.le,
      LineTable.line_left _ hlexeme.le]

/-- What stands below it has moved. -/
theorem Lexeme.resembles_below (ha : EndsLine a) (hline : BlankLine line) (b : List Char)
    (lexeme : Lexeme) :
    (lexeme.shift (byteLength a)).Resembles (a ++ b) (a ++ (line ++ b))
      (lowerFrom ((LineTable.ofText (a ++ b)).line (byteLength a)))
      (lexeme.shift (byteLength a + byteLength line)) where
  token := rfl
  head := by
    have hplace : lexeme.span.start + (byteLength a + byteLength line)
        = lexeme.span.start + byteLength line + byteLength a := by omega
    rw [Lexeme.shift_start, Lexeme.shift_start, hplace, lineHead_shift ha, lineHead_shift ha,
      lineHead_shift hline.quoteless.ends]
  line := by
    have hplace : lexeme.span.start + (byteLength a + byteLength line)
        = lexeme.span.start + byteLength line + byteLength a := by omega
    have hbelow : (LineTable.ofText (a ++ b)).line (byteLength a)
        ≤ (LineTable.ofText (a ++ b)).line (lexeme.span.start + byteLength a) :=
      LineTable.line_mono _ (Nat.le_add_left _ _)
    rw [Lexeme.shift_start, Lexeme.shift_start, lowerFrom, if_pos hbelow, hplace,
      LineTable.line_shift ha, LineTable.line_shift ha, LineTable.line_shift hline.quoteless.ends,
      hline.count_newline]
    omega

/-- A token begins before the end of the pieces it is among. -/
theorem start_lt_of_mem_lexemesFrom {ps : List Piece} (hne : ∀ p ∈ ps, p.chars ≠ [])
    {lexeme : Lexeme} (h : lexeme ∈ lexemesFrom 0 ps) :
    lexeme.span.start < byteLength (ps.flatMap Piece.chars) := by
  obtain ⟨front, chars, back, rfl, hspan⟩ := mem_lexemesFrom h
  have hchars := byteLength_pos (hne ⟨.token lexeme.token, chars⟩ (by simp))
  simp only [hspan, List.flatMap_append, List.flatMap_cons, byteLength_append]
  simp only at hchars
  omega

/-- The scans of the two texts: the same tokens, and a newline more behind a newline. -/
theorem BlankLine.scan_insert (hline : BlankLine line) (hends : LineEndsAt (a ++ b) (byteLength a))
    {lexemes : List Lexeme} (hscan : scan (a ++ b) = .ok lexemes) :
    ∃ lexemes', scan (a ++ (line ++ b)) = .ok lexemes' ∧
      Padded (Lexeme.Resembles (a ++ b) (a ++ (line ++ b))
        (lowerFrom ((LineTable.ofText (a ++ b)).line (byteLength a)))) lexemes lexemes' := by
  obtain ⟨hfaults, rfl⟩ := scan_pieces hscan
  have hclean := faultsFrom_eq_nil hfaults
  have hnonempty := pieces_nonempty (a ++ b)
  obtain ⟨front, chars, back, hcut, hchars, -⟩ := hends.split
  have hcovers : (front ++ [(⟨.token .newline, chars⟩ : Piece)]).flatMap Piece.chars = a := by
    simpa using hchars
  rw [hcut, List.forall_mem_append] at hclean hnonempty
  obtain ⟨hnew, rfl⟩ := pieces_front (line ++ b) (Or.inr hends.endsLine)
    (fun t ht => Quoted.length?_insert hline.quoteless ht) hclean.1 hcut hcovers
  -- The tokens below the line, which is all there is in between.
  have hbelow : Cut (byteLength a + byteLength line) b
      ((lexemesFrom 0 (pieces b)).map (Lexeme.shift (byteLength a + byteLength line))) :=
    ⟨by rw [← lexemesFrom_shift, Nat.zero_add], faultsFrom_of_clean hclean.2 _⟩
  obtain ⟨extra, hextra, hinserted⟩ := hline.cut hbelow
  have hwhole : Cut 0 (a ++ (line ++ b))
      (lexemesFrom 0 (front ++ [⟨.token .newline, chars⟩]) ++ extra ::
        (lexemesFrom 0 (pieces b)).map (Lexeme.shift (byteLength a + byteLength line))) := by
    constructor
    · rw [hnew, lexemesFrom_append, hcovers, Nat.zero_add, hinserted.lexemes]
    · rw [hnew, faultsFrom_append, hcovers, Nat.zero_add, hinserted.faults,
        faultsFrom_of_clean hclean.1, List.append_nil]
  refine ⟨_, hwhole.scan, ?_⟩
  have habove : ∀ lexeme ∈ lexemesFrom 0 (front ++ [⟨.token .newline, chars⟩]),
      lexeme.span.start < byteLength a := by
    intro lexeme hlexeme
    rw [← hcovers]
    exact start_lt_of_mem_lexemesFrom hnonempty.1 hlexeme
  obtain ⟨above, last, hlast, hnewline⟩ : ∃ above last,
      lexemesFrom 0 (front ++ [⟨.token .newline, chars⟩]) = above ++ [last] ∧
        last.token = .newline := by
    rw [lexemesFrom_append]
    exact ⟨_, _, rfl, rfl⟩
  rw [hcut, lexemesFrom_append, hcovers, lexemesFrom_shift, hlast]
  rw [hlast, List.forall_mem_append, List.forall_mem_singleton] at habove
  simp only [List.append_assoc, List.singleton_append]
  refine Padded.append (List.forall₂_same.mpr fun lexeme hlexeme => ?_) ?_
  · exact Lexeme.resembles_above hends.endsLine line b (habove.1 lexeme hlexeme)
  refine Padded.newline ?_ hnewline hextra (.of_forall₂ ?_)
  · exact Lexeme.resembles_above hends.endsLine line b habove.2
  · rw [List.forall₂_map_left_iff, List.forall₂_map_right_iff]
    exact List.forall₂_same.mpr fun lexeme _ =>
      Lexeme.resembles_below hends.endsLine hline b lexeme

/-- **A line without tokens can be put in behind any newline token**: the tokens are the same,
and so are the logical lines, those below it counted one further down. -/
theorem tokenize_insert_blank {source more line : String} {stream : TokenStream}
    (h : tokenize (source ++ more) = .ok stream)
    (hends : LineEndsAt (source ++ more).toList (byteLength source.toList))
    (hline : BlankLine line.toList) :
    ∃ again, tokenize (source ++ line ++ more) = .ok again ∧
      again.tokens.map Lexeme.token = stream.tokens.map Lexeme.token ∧
      again.lines = stream.lines.map fun logical =>
        if (LineTable.ofText (source ++ more).toList).line (byteLength source.toList) ≤ logical.line
        then { logical with line := logical.line + 1 } else logical := by
  obtain ⟨lexemes, hscan, -⟩ := tokenize_run h
  rw [String.toList_append] at hends
  have htext : (source ++ line ++ more).toList = source.toList ++ (line.toList ++ more.toList) := by
    simp
  obtain ⟨lexemes', hscan', hpadded⟩ := hline.scan_insert hends (by simpa using hscan)
  obtain ⟨again, hagain, htokens, hlines⟩ := tokenize_resembles h hscan
    (by rw [htext]; exact hscan') (by rw [htext, String.toList_append]; exact hpadded)
  refine ⟨again, hagain, htokens, ?_⟩
  rw [hlines, String.toList_append]
  refine List.map_congr_left fun logical _ => ?_
  simp only [LogicalLine.renumber, lowerFrom]
  split
  · rfl
  · rfl

/-- A comment in the middle of a condition, behind a bracket that is still open, and less
indented than the block that follows. -/
theorem tokenize_insert_blank_condition : ∃ stream again,
    tokenize ("if f(x,\n" ++ "y):\n    z\n") = .ok stream ∧
    tokenize ("if f(x,\n" ++ " \t# why y)\n" ++ "y):\n    z\n") = .ok again ∧
    again.tokens.map Lexeme.token = stream.tokens.map Lexeme.token ∧
    again.lines = [⟨1, "", true⟩, ⟨4, "    ", false⟩] := by
  have hlines : (tokenize ("if f(x,\n" ++ "y):\n    z\n")).toOption.map TokenStream.lines
      = some [⟨1, "", true⟩, ⟨3, "    ", false⟩] := by decide +kernel
  have hends : LineEndsAt ("if f(x,\n" ++ "y):\n    z\n").toList
      (byteLength "if f(x,\n".toList) := by
    decide +kernel
  have hbelow : (LineTable.ofText ("if f(x,\n" ++ "y):\n    z\n").toList).line
      (byteLength "if f(x,\n".toList) = 2 := by decide +kernel
  have hline : BlankLine " \t# why y)\n".toList :=
    @BlankLine.comment [' ', '\t'] " why y)".toList (by simp [isSpacing]) (by simp [Quoted.isQuote])
  cases h : tokenize ("if f(x,\n" ++ "y):\n    z\n") with
  | error errors =>
    rw [h] at hlines
    cases hlines
  | ok stream =>
    obtain ⟨again, hagain, htokens, hagainLines⟩ := tokenize_insert_blank h hends hline
    refine ⟨stream, again, rfl, hagain, htokens, ?_⟩
    rw [h] at hlines
    rw [hagainLines, Option.some.inj hlines, hbelow]
    rfl

end Scrutiny
