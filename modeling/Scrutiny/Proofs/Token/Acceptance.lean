/-
Which texts have a token stream, and what is wrong with the others.

The layout follows brackets and indentation in one pass, and each holds the other up:
inside brackets no line begins, and a line that begins wrongly is not looked at further.
Here both are said of the tokens alone.  A token closes a bracket wrongly if the innermost
one left open before it is of another kind, or there is none (`ClosesWrongly`).  A token that
begins a line dedents unevenly if its line is indented less than the last one, and not like
any line around it (`DedentsUnevenly`).

The state of the layout holds just that much about the tokens before it
(`Layout.State.Tracks`), so it stops at the first token with which something is wrong, and
otherwise only at the end, if a bracket is still open (`tokenize_rejects_exactly`).
-/
import Scrutiny.Proofs.Token.Joining

namespace Scrutiny

variable {before lexemes : List Lexeme} {cs : List Char} {fault : TokenFault} {indents : List Nat}
  {lexeme : Lexeme}

/-! ### Brackets left open -/

/-- The brackets open behind one more token: an opening one comes on top, and a closing one
takes the top away, of whatever kind that is. -/
def openAfter (brackets : List (Bracket × Span)) (lexeme : Lexeme) : List (Bracket × Span) :=
  match lexeme.token with
  | .symbol (.opening b) => (b, lexeme.span) :: brackets
  | .symbol (.closing _) => brackets.tail
  | _ => brackets

/-- The brackets that some tokens leave open, innermost first. -/
def openBrackets (lexemes : List Lexeme) : List (Bracket × Span) :=
  lexemes.foldl openAfter []

@[simp] theorem openBrackets_concat (lexemes : List Lexeme) (lexeme : Lexeme) :
    openBrackets (lexemes ++ [lexeme]) = openAfter (openBrackets lexemes) lexeme := by
  simp [openBrackets]

theorem openAfter_newline (h : lexeme.token = .newline)
    (brackets : List (Bracket × Span)) : openAfter brackets lexeme = brackets := by
  simp only [openAfter, h]

/-- A token closes a bracket that is not the innermost one left open before it. -/
inductive ClosesWrongly (before : List Lexeme) (lexeme : Lexeme) : TokenFault → Prop
  | unmatched {b : Bracket} (htoken : lexeme.token = .symbol (.closing b))
      (hnone : openBrackets before = []) : ClosesWrongly before lexeme (.unmatched b)
  | mismatched {b inner : Bracket} {span : Span} {outer : List (Bracket × Span)}
      (htoken : lexeme.token = .symbol (.closing b))
      (hopen : openBrackets before = (inner, span) :: outer) (hother : inner ≠ b) :
      ClosesWrongly before lexeme (.mismatched b inner)

namespace Layout

theorem matchBrackets_eq_openAfter {brackets next : List (Bracket × Span)}
    (h : matchBrackets brackets lexeme = .ok next) : next = openAfter brackets lexeme := by
  unfold openAfter
  rcases matchBrackets_cases h with ⟨b, htoken, rfl⟩ | ⟨b, span, htoken, rfl⟩ | ⟨hother, rfl⟩
  · rw [htoken]
  · rw [htoken]
    rfl
  · split
    · rename_i b htoken
      exact absurd htoken (hother b).1
    · rename_i b htoken
      exact absurd htoken (hother b).2
    · rfl

theorem matchBrackets_error_iff :
    matchBrackets (openBrackets before) lexeme = .error fault ↔
      ClosesWrongly before lexeme fault := by
  constructor
  · intro h
    unfold matchBrackets at h
    split at h
    · simp at h
    · rename_i b htoken
      split at h
      · rename_i hnone
        cases h
        exact .unmatched htoken hnone
      · rename_i inner span outer hopen
        split at h
        · simp at h
        · rename_i hother
          cases h
          exact .mismatched htoken hopen hother
    · simp at h
  · intro h
    cases h with
    | unmatched htoken hnone => simp only [matchBrackets, htoken, hnone]
    | mismatched htoken hopen hother => simp only [matchBrackets, htoken, hopen, if_neg hother]

end Layout

/-! ### Lines that begin -/

/-- A token begins a logical line: it is no newline, no bracket is open before it, and it
comes first or right behind a newline. -/
def BeginsLine (before : List Lexeme) (lexeme : Lexeme) : Prop :=
  lexeme.token ≠ .newline ∧ openBrackets before = [] ∧
    ∀ last ∈ before.getLast?, last.token = .newline

instance (before : List Lexeme) (lexeme : Lexeme) : Decidable (BeginsLine before lexeme) :=
  inferInstanceAs (Decidable (_ ∧ _ ∧ _))

/-- The tokens that begin logical lines, among those that follow some others. -/
def lineFirstsAfter (before : List Lexeme) : List Lexeme → List Lexeme
  | [] => []
  | lexeme :: rest =>
    (if BeginsLine before lexeme then [lexeme] else []) ++ lineFirstsAfter (before ++ [lexeme]) rest

/-- The first tokens of the logical lines. -/
def lineFirsts (lexemes : List Lexeme) : List Lexeme := lineFirstsAfter [] lexemes

theorem lineFirstsAfter_concat (before lexemes : List Lexeme) (lexeme : Lexeme) :
    lineFirstsAfter before (lexemes ++ [lexeme]) = lineFirstsAfter before lexemes ++
      if BeginsLine (before ++ lexemes) lexeme then [lexeme] else [] := by
  induction lexemes generalizing before with
  | nil => simp [lineFirstsAfter]
  | cons first rest ih => simp [lineFirstsAfter, ih]

theorem lineFirsts_concat (lexemes : List Lexeme) (lexeme : Lexeme) :
    lineFirsts (lexemes ++ [lexeme]) = lineFirsts lexemes ++
      if BeginsLine lexemes lexeme then [lexeme] else [] :=
  lineFirstsAfter_concat [] lexemes lexeme

/-- How far a token is from the margin: the width of what stands before it on its line. -/
def Lexeme.indentIn (cs : List Char) (lexeme : Lexeme) : Nat :=
  Layout.width (lineHead cs lexeme.span.start)

/-- How far each logical line is indented. -/
def lineWidths (cs : List Char) (lexemes : List Lexeme) : List Nat :=
  (lineFirsts lexemes).map (Lexeme.indentIn cs)

theorem lineWidths_concat_first (h : BeginsLine lexemes lexeme) :
    lineWidths cs (lexemes ++ [lexeme]) = lineWidths cs lexemes ++ [lexeme.indentIn cs] := by
  simp [lineWidths, lineFirsts_concat, h]

theorem lineWidths_concat_other (h : ¬ BeginsLine lexemes lexeme) :
    lineWidths cs (lexemes ++ [lexeme]) = lineWidths cs lexemes := by
  simp [lineWidths, lineFirsts_concat, h]

/-! ### Levels of indentation -/

/-- A level that encloses what follows lines of some widths: the margin, or the width of a
line that no later line went below. -/
def Encloses (widths : List Nat) (level : Nat) : Prop :=
  level = 0 ∨ ∃ earlier later, widths = earlier ++ level :: later ∧ ∀ w ∈ later, level ≤ w

/-- A line leaves the levels that are deeper, and brings its own. -/
theorem encloses_concat {widths : List Nat} {w level : Nat} :
    Encloses (widths ++ [w]) level ↔ level = 0 ∨ level = w ∨ Encloses widths level ∧ level ≤ w := by
  constructor
  · rintro (rfl | ⟨earlier, later, hwidths, hlater⟩)
    · exact Or.inl rfl
    · rcases List.eq_nil_or_concat later with rfl | ⟨init, last, rfl⟩
      · obtain ⟨-, hlast⟩ := List.append_inj' hwidths rfl
        exact Or.inr (Or.inl (List.cons.inj hlast).1.symm)
      · rw [List.concat_eq_append] at hwidths hlater
        rw [← List.cons_append, ← List.append_assoc] at hwidths
        obtain ⟨hinit, hlast⟩ := List.append_inj' hwidths rfl
        obtain rfl := (List.cons.inj hlast).1
        refine Or.inr (Or.inr ⟨Or.inr ⟨earlier, init, hinit, fun v hv => ?_⟩, ?_⟩)
        · exact hlater v (List.mem_append_left _ hv)
        · exact hlater w (List.mem_append_right _ (List.mem_singleton_self w))
  · rintro (rfl | rfl | ⟨rfl | ⟨earlier, later, rfl, hlater⟩, hle⟩)
    · exact Or.inl rfl
    · exact Or.inr ⟨widths, [], rfl, by simp⟩
    · exact Or.inl rfl
    · refine Or.inr ⟨earlier, later ++ [w], by simp, fun v hv => ?_⟩
      rcases List.mem_append.mp hv with hv | hv
      · exact hlater v hv
      · rw [List.mem_singleton.mp hv]
        exact hle

/-- A token begins a line that is indented less than the one before it, and like none of
those around it. -/
structure DedentsUnevenly (cs : List Char) (before : List Lexeme) (lexeme : Lexeme) : Prop where
  begins : BeginsLine before lexeme
  below : lexeme.indentIn cs < (lineWidths cs before).getLastD 0
  uneven : ¬ Encloses (lineWidths cs before) (lexeme.indentIn cs)

namespace Layout

variable (hfalling : indents.Pairwise (· > ·))

include hfalling

theorem mem_dropWhile_deeper (w v : Nat) : v ∈ indents.dropWhile (w < ·) ↔ v ∈ indents ∧ v ≤ w := by
  induction indents with
  | nil => simp
  | cons top indents ih =>
    obtain ⟨htop, hrest⟩ := List.pairwise_cons.mp hfalling
    by_cases hw : w < top
    · rw [List.dropWhile_cons_of_pos (by simpa using hw), ih hrest, List.mem_cons]
      constructor
      · exact fun hv => ⟨Or.inr hv.1, hv.2⟩
      · rintro ⟨rfl | hv, hle⟩
        · omega
        · exact ⟨hv, hle⟩
    · rw [List.dropWhile_cons_of_neg (by simpa using hw)]
      refine ⟨fun hv => ⟨hv, ?_⟩, fun hv => hv.1⟩
      rcases List.mem_cons.mp hv with rfl | hv
      · omega
      · have := htop v hv
        omega

theorem le_headD : ∀ v ∈ indents, v ≤ indents.headD 0 := by
  cases indents with
  | nil => simp
  | cons top indents =>
    intro v hv
    rcases List.mem_cons.mp hv with rfl | hv
    · exact Nat.le_refl _
    · exact Nat.le_of_lt ((List.pairwise_cons.mp hfalling).1 v hv)

/-- What is left after going back to `w` begins with `w`, if `w` is a level at all. -/
theorem headD_dropWhile_eq_iff (w : Nat) :
    (indents.dropWhile (w < ·)).headD 0 = w ↔ w = 0 ∨ w ∈ indents := by
  have hmem := mem_dropWhile_deeper hfalling w
  have hkept : (indents.dropWhile (w < ·)).Pairwise (· > ·) :=
    hfalling.sublist (List.dropWhile_sublist _)
  cases hdrop : indents.dropWhile (w < ·) with
  | nil =>
    rw [hdrop] at hmem
    have hnot : w ∉ indents := fun hw => absurd ((hmem w).mpr ⟨hw, Nat.le_refl w⟩) (by simp)
    simp [hnot, eq_comm]
  | cons top rest =>
    rw [hdrop] at hmem hkept
    obtain ⟨htop, hle⟩ := (hmem top).mp List.mem_cons_self
    rw [List.headD_cons]
    constructor
    · rintro rfl
      exact Or.inr htop
    · rintro (rfl | hw)
      · omega
      · have := le_headD hkept w ((hmem w).mpr ⟨hw, Nat.le_refl w⟩)
        rw [List.headD_cons] at this
        omega

/-- A line begins wrongly if it goes back, and to no level. -/
theorem reindent?_eq_none_iff (w : Nat) :
    reindent? indents w = none ↔ w < indents.headD 0 ∧ ¬ (w = 0 ∨ w ∈ indents) := by
  have hlevel := headD_dropWhile_eq_iff hfalling w
  unfold reindent?
  simp only
  split
  · rename_i hdeeper
    simp only [reduceCtorEq, false_iff]
    omega
  · rename_i hback
    rw [← hlevel]
    split
    · rename_i heq
      simp only [reduceCtorEq, false_iff]
      exact fun hnot => hnot.2 heq
    · rename_i hne
      simp only [true_iff]
      refine ⟨?_, hne⟩
      by_contra hnot
      -- At its own level a line is at a level.
      have hsame : w = indents.headD 0 := by omega
      refine hne (hlevel.mpr ?_)
      cases indents with
      | nil => exact Or.inl hsame
      | cons top indents => exact Or.inr (by simp [hsame])

/-- The levels at a line that begins: its own, and those around it. -/
theorem reindent?_encloses {kept : List Nat} {w : Nat} {marks : List Token}
    (h : reindent? indents w = some (kept, marks)) :
    kept.headD 0 = w ∧ kept.Pairwise (· > ·) ∧
      ∀ v, v = 0 ∨ v ∈ kept ↔ v = 0 ∨ v = w ∨ (v = 0 ∨ v ∈ indents) ∧ v ≤ w := by
  rcases reindent?_deeper_or_back h with ⟨hdeeper, rfl, -⟩ | ⟨-, rfl, hlevel, -⟩
  · have hbelow (v : Nat) (hv : v ∈ indents) : v < w := by
      have := le_headD hfalling v hv
      omega
    refine ⟨rfl, List.pairwise_cons.mpr ⟨hbelow, hfalling⟩, fun v => ?_⟩
    rw [List.mem_cons]
    constructor
    · rintro (hv | hv | hv)
      · exact Or.inl hv
      · exact Or.inr (Or.inl hv)
      · exact Or.inr (Or.inr ⟨Or.inr hv, Nat.le_of_lt (hbelow v hv)⟩)
    · tauto
  · refine ⟨hlevel, hfalling.sublist (List.dropWhile_sublist _), fun v => ?_⟩
    rw [headD_dropWhile_eq_iff hfalling] at hlevel
    rw [mem_dropWhile_deeper hfalling]
    constructor
    · tauto
    · rintro (hv | rfl | ⟨hv | hv, hle⟩)
      · exact Or.inl hv
      · exact hlevel.imp_right fun hw => ⟨hw, Nat.le_refl _⟩
      · exact Or.inl hv
      · exact Or.inr ⟨hv, hle⟩

/-! ### What the layout knows -/

variable {cs : List Char} {table : LineTable}

omit hfalling

/-- What a state holds about the tokens before it. -/
structure State.Tracks (cs : List Char) (read : List Lexeme) (state : State) : Prop where
  brackets : state.brackets = openBrackets read
  line : state.line? = none ↔
    openBrackets read = [] ∧ ∀ last ∈ read.getLast?, last.token = .newline
  level : state.indents.headD 0 = (lineWidths cs read).getLastD 0
  levels : ∀ w, w = 0 ∨ w ∈ state.indents ↔ Encloses (lineWidths cs read) w
  falling : state.indents.Pairwise (· > ·)

theorem State.Tracks.initial (cs : List Char) : State.initial.Tracks cs [] where
  brackets := rfl
  line := by simp [State.initial, openBrackets]
  level := rfl
  levels w := by simp [State.initial, Encloses, lineWidths, lineFirsts, lineFirstsAfter]
  falling := .nil

namespace State.Tracks

variable {read : List Lexeme} {state next : State} {lexeme : Lexeme} {more : List Lexeme}
  {ended : List LogicalLine}

theorem begins_iff (h : state.Tracks cs read) :
    BeginsLine read lexeme ↔ lexeme.token ≠ .newline ∧ state.line? = none := by
  rw [BeginsLine, h.line]

theorem step (h : state.Tracks cs read) (hstep : Step cs table state lexeme next more ended) :
    next.Tracks cs (read ++ [lexeme]) := by
  -- A token that begins no line leaves the levels as they are.
  have hsame (hnot : ¬ BeginsLine read lexeme) :
      lineWidths cs (read ++ [lexeme]) = lineWidths cs read := lineWidths_concat_other hnot
  cases hstep with
  | blank hnewline hline =>
    have hwidths := hsame fun hfirst => hfirst.1 hnewline
    have hopen := openAfter_newline hnewline (openBrackets read)
    refine ⟨?_, ?_, by rw [hwidths, h.level], by rw [hwidths]; exact h.levels, h.falling⟩
    · rw [openBrackets_concat, hopen, h.brackets]
    · simpa [hopen, hnewline, hline] using (h.line.mp hline).1
  | inner hnewline hinside =>
    have hwidths := hsame fun hfirst => hfirst.1 hnewline
    have hopen := openAfter_newline hnewline (openBrackets read)
    rw [h.brackets] at hinside
    refine ⟨?_, ?_, by rw [hwidths, h.level], by rw [hwidths]; exact h.levels, h.falling⟩
    · rw [openBrackets_concat, hopen, h.brackets]
    · rw [h.line]
      simp [hopen, hinside]
  | ending hnewline hline hclosed =>
    have hwidths := hsame fun hfirst => hfirst.1 hnewline
    have hopen := openAfter_newline hnewline (openBrackets read)
    rw [h.brackets] at hclosed
    refine ⟨?_, ?_, by rw [hwidths, h.level], by rw [hwidths]; exact h.levels, h.falling⟩
    · rw [openBrackets_concat, hopen, h.brackets]
    · rw [openBrackets_concat, hopen, hclosed]
      simp [hnewline]
  | first hother hline hindent hbrackets =>
    have hwidths : lineWidths cs (read ++ [lexeme])
        = lineWidths cs read ++ [lexeme.indentIn cs] :=
      lineWidths_concat_first (h.begins_iff.mpr ⟨hother, hline⟩)
    obtain ⟨hlevel, hfalling, hlevels⟩ := reindent?_encloses h.falling hindent
    refine ⟨?_, by simp [hother], ?_, fun w => ?_, hfalling⟩
    · rw [openBrackets_concat, ← h.brackets]
      exact matchBrackets_eq_openAfter hbrackets
    · rw [hwidths]
      simpa [Lexeme.indentIn] using hlevel
    · rw [hwidths, encloses_concat, ← h.levels]
      exact hlevels w
  | further hother hline hbrackets =>
    have hwidths := hsame fun hfirst => by simp [(h.begins_iff.mp hfirst).2] at hline
    refine ⟨?_, by simp [hother], by rw [hwidths]; exact h.level,
      by rw [hwidths]; exact h.levels, h.falling⟩
    rw [openBrackets_concat, ← h.brackets]
    exact matchBrackets_eq_openAfter hbrackets

theorem uneven_iff (h : state.Tracks cs read) :
    DedentsUnevenly cs read lexeme ↔ lexeme.token ≠ .newline ∧ state.line? = none ∧
      reindent? state.indents (width (lineHead cs lexeme.span.start)) = none := by
  rw [reindent?_eq_none_iff h.falling, h.level, h.levels, ← and_assoc, ← h.begins_iff]
  exact ⟨fun hd => ⟨hd.begins, hd.below, hd.uneven⟩, fun hd => ⟨hd.1, hd.2.1, hd.2.2⟩⟩

end State.Tracks

end Layout

/-! ### The first token with which something is wrong -/

/-- What is wrong with a token, seen from the tokens before it.  Where its line begins is
looked at first. -/
inductive WrongAt (cs : List Char) (before : List Lexeme) (lexeme : Lexeme) : TokenFault → Prop
  | uneven (huneven : DedentsUnevenly cs before lexeme) : WrongAt cs before lexeme .unevenDedent
  | closing {fault : TokenFault} (heven : ¬ DedentsUnevenly cs before lexeme)
      (hcloses : ClosesWrongly before lexeme fault) : WrongAt cs before lexeme fault

theorem exists_wrongAt_iff : (∃ fault, WrongAt cs before lexeme fault) ↔
      (∃ fault, ClosesWrongly before lexeme fault) ∨ DedentsUnevenly cs before lexeme := by
  constructor
  · rintro ⟨fault, huneven | ⟨-, hcloses⟩⟩
    · exact Or.inr huneven
    · exact Or.inl ⟨fault, hcloses⟩
  · intro h
    by_cases huneven : DedentsUnevenly cs before lexeme
    · exact ⟨_, .uneven huneven⟩
    · obtain ⟨fault, hcloses⟩ := h.resolve_right huneven
      exact ⟨fault, .closing huneven hcloses⟩

/-- Nothing is wrong with any of some tokens. -/
def Faultless (cs : List Char) (lexemes : List Lexeme) : Prop :=
  ∀ before lexeme after, lexemes = before ++ lexeme :: after →
    ∀ fault, ¬ WrongAt cs before lexeme fault

namespace Faultless

variable {cs : List Char} {lexemes : List Lexeme} {lexeme : Lexeme}

theorem init (h : Faultless cs (lexemes ++ [lexeme])) :
    Faultless cs lexemes ∧ ∀ fault, ¬ WrongAt cs lexemes lexeme fault :=
  ⟨fun before other after heq => h before other (after ++ [lexeme]) (by simp [heq]),
    h lexemes lexeme [] rfl⟩

theorem concat (h : Faultless cs lexemes) (hlast : ∀ fault, ¬ WrongAt cs lexemes lexeme fault) :
    Faultless cs (lexemes ++ [lexeme]) := by
  intro before other after heq
  rcases List.eq_nil_or_concat after with rfl | ⟨init, last, rfl⟩
  · obtain ⟨rfl, hsame⟩ := List.append_inj' heq rfl
    obtain rfl := (List.cons.inj hsame).1
    exact hlast
  · rw [List.concat_eq_append, ← List.cons_append, ← List.append_assoc] at heq
    exact h before other init (List.append_inj' heq rfl).1

/-- Either nothing is wrong, or there is a first token with which something is. -/
theorem or_first (cs : List Char) (lexemes : List Lexeme) :
    Faultless cs lexemes ∨ ∃ before lexeme after fault, lexemes = before ++ lexeme :: after ∧
      Faultless cs before ∧ WrongAt cs before lexeme fault := by
  induction lexemes using List.reverseRecOn with
  | nil =>
    refine Or.inl fun before lexeme after heq => ?_
    simp at heq
  | append_singleton lexemes lexeme ih =>
    rcases ih with hnone | ⟨before, other, after, fault, rfl, hbefore, hwrong⟩
    · by_cases hlast : ∃ fault, WrongAt cs lexemes lexeme fault
      · obtain ⟨fault, hwrong⟩ := hlast
        exact Or.inr ⟨lexemes, lexeme, [], fault, rfl, hnone, hwrong⟩
      · exact Or.inl (hnone.concat (not_exists.mp hlast))
    · exact Or.inr ⟨before, other, after ++ [lexeme], fault, by simp, hbefore, hwrong⟩

end Faultless

namespace Layout

variable {cs : List Char}

/-- The layout is stuck where something is wrong, and nowhere else. -/
theorem State.Tracks.stuck_iff {read : List Lexeme} {state : State} (h : state.Tracks cs read) :
    Stuck cs state lexeme fault ↔ WrongAt cs read lexeme fault := by
  constructor
  · rintro (⟨hother, hline, hindent⟩ | ⟨hother, hindent, hbrackets⟩)
    · exact .uneven (h.uneven_iff.mpr ⟨hother, hline, hindent⟩)
    · rw [h.brackets, matchBrackets_error_iff] at hbrackets
      refine .closing (fun huneven => ?_) hbrackets
      obtain ⟨-, hline, hnone⟩ := h.uneven_iff.mp huneven
      exact hindent hline hnone
  · rintro (huneven | ⟨heven, hcloses⟩)
    · obtain ⟨hother, hline, hindent⟩ := h.uneven_iff.mp huneven
      exact .uneven hother hline hindent
    · have hother : lexeme.token ≠ .newline := by
        intro hnewline
        cases hcloses with
        | unmatched htoken | mismatched htoken => simp [hnewline] at htoken
      refine .bracket hother (fun hline hindent => ?_) ?_
      · exact heven (h.uneven_iff.mpr ⟨hother, hline, hindent⟩)
      · rw [h.brackets, matchBrackets_error_iff]
        exact hcloses

/-- Tokens with which nothing is wrong are laid out to the last. -/
theorem Steps.of_faultless (h : Faultless cs lexemes) (table : LineTable) :
    ∃ state out lines, Steps cs table .initial lexemes state out lines ∧
      state.Tracks cs lexemes := by
  induction lexemes using List.reverseRecOn with
  | nil => exact ⟨.initial, [], [], .nil, .initial cs⟩
  | append_singleton lexemes lexeme ih =>
    obtain ⟨hinit, hlast⟩ := h.init
    obtain ⟨state, out, lines, hsteps, htracks⟩ := ih hinit
    rcases step_or_stuck cs table state lexeme with ⟨next, more, ended, hstep⟩ | ⟨fault, hstuck⟩
    · exact ⟨next, _, _, hsteps.snoc hstep, htracks.step hstep⟩
    · exact absurd (htracks.stuck_iff.mp hstuck) (hlast fault)

theorem run_of_wrongAt {after : List Lexeme}
    (hbefore : Faultless cs before) (hwrong : WrongAt cs before lexeme fault) (table : LineTable) :
    run cs table .initial (before ++ lexeme :: after) = .error ⟨fault, lexeme.span⟩ := by
  obtain ⟨state, out, lines, hsteps, htracks⟩ := Steps.of_faultless hbefore table
  rw [run_of_steps hsteps, run_of_stuck (htracks.stuck_iff.mpr hwrong)]
  rfl

theorem run_of_unclosed {b : Bracket} {span : Span}
    {outer : List (Bracket × Span)} (h : Faultless cs lexemes)
    (hopen : openBrackets lexemes = (b, span) :: outer) (table : LineTable) :
    run cs table .initial lexemes = .error ⟨.unclosed b, span⟩ := by
  obtain ⟨state, out, lines, hsteps, htracks⟩ := Steps.of_faultless h table
  have hrun := run_of_steps hsteps []
  rw [List.append_nil, run, finish, htracks.brackets, hopen] at hrun
  exact hrun

theorem run_of_closed (h : Faultless cs lexemes)
    (hclosed : openBrackets lexemes = []) (table : LineTable) :
    ∃ stream, run cs table .initial lexemes = .ok stream := by
  obtain ⟨state, out, lines, hsteps, htracks⟩ := Steps.of_faultless h table
  have hrun := run_of_steps hsteps []
  rw [List.append_nil, run, finish, htracks.brackets, hclosed] at hrun
  rw [hrun]
  cases state.line? with
  | none => exact ⟨_, rfl⟩
  | some line => exact ⟨_, rfl⟩

end Layout

/-! ### The error of a text -/

/-- The error of some tokens: that of the first one with which something is wrong, and if
there is none, the innermost bracket that is left open. -/
inductive Reported (cs : List Char) (lexemes : List Lexeme) : TokenError → Prop
  | first {before after : List Lexeme} {lexeme : Lexeme} {fault : TokenFault}
      (hsplit : lexemes = before ++ lexeme :: after) (hearlier : Faultless cs before)
      (hwrong : WrongAt cs before lexeme fault) : Reported cs lexemes ⟨fault, lexeme.span⟩
  | unclosed {b : Bracket} {span : Span} {outer : List (Bracket × Span)}
      (hnone : Faultless cs lexemes) (hopen : openBrackets lexemes = (b, span) :: outer) :
      Reported cs lexemes ⟨.unclosed b, span⟩

/--
**A text that can be scanned has no token stream just if** a closing bracket does not close
the innermost open one, or a line goes back to no level around it, or a bracket is open at
the end.  It then has one error: that of the first token with which one of the first two is
wrong, and only if there is none, the innermost bracket that is not closed.
-/
theorem tokenize_rejects_exactly {source : String} {lexemes : List Lexeme}
    (h : scan source.toList = .ok lexemes) : ((∃ errors, tokenize source = .error errors) ↔
      (∃ before lexeme after fault, lexemes = before ++ lexeme :: after ∧
        ClosesWrongly before lexeme fault) ∨
      (∃ before lexeme after, lexemes = before ++ lexeme :: after ∧
        DedentsUnevenly source.toList before lexeme) ∨ openBrackets lexemes ≠ []) ∧
    ∀ errors, tokenize source = .error errors →
      errors.more = [] ∧ Reported source.toList lexemes errors.first := by
  rcases Faultless.or_first source.toList lexemes with
    hnone | ⟨before, lexeme, after, fault, hsplit, hbefore, hwrong⟩
  · have hnoClose : ¬ ∃ before lexeme after fault, lexemes = before ++ lexeme :: after ∧
        ClosesWrongly before lexeme fault := by
      rintro ⟨before, lexeme, after, fault, hsplit, hcloses⟩
      obtain ⟨other, hwrong⟩ := exists_wrongAt_iff.mpr (Or.inl ⟨fault, hcloses⟩)
      exact hnone before lexeme after hsplit other hwrong
    have hnoDedent : ¬ ∃ before lexeme after, lexemes = before ++ lexeme :: after ∧
        DedentsUnevenly source.toList before lexeme := by
      rintro ⟨before, lexeme, after, hsplit, huneven⟩
      exact hnone before lexeme after hsplit _ (.uneven huneven)
    cases hopen : openBrackets lexemes with
    | nil =>
      obtain ⟨stream, hrun⟩ := Layout.run_of_closed hnone hopen (.ofText source.toList)
      have hok : tokenize source = .ok stream := by simp only [tokenize, h, hrun]
      rw [hok]
      refine ⟨iff_of_false (by simp) ?_, by simp⟩
      rintro (hcloses | huneven | hleft)
      · exact hnoClose hcloses
      · exact hnoDedent huneven
      · exact hleft rfl
    | cons found outer =>
      have herror : tokenize source = .error ⟨⟨.unclosed found.1, found.2⟩, []⟩ := by
        simp only [tokenize, h, Layout.run_of_unclosed hnone hopen]
      rw [herror]
      refine ⟨iff_of_true ⟨_, rfl⟩ (Or.inr (Or.inr (List.cons_ne_nil _ _))), ?_⟩
      rintro errors ⟨⟩
      exact ⟨rfl, .unclosed hnone hopen⟩
  · have herror : tokenize source = .error ⟨⟨fault, lexeme.span⟩, []⟩ := by
      simp only [tokenize, h, hsplit, Layout.run_of_wrongAt hbefore hwrong]
    rw [herror]
    constructor
    · refine iff_of_true ⟨_, rfl⟩ ?_
      rcases exists_wrongAt_iff.mp ⟨fault, hwrong⟩ with ⟨other, hcloses⟩ | huneven
      · exact Or.inl ⟨before, lexeme, after, other, hsplit, hcloses⟩
      · exact Or.inr (Or.inl ⟨before, lexeme, after, hsplit, huneven⟩)
    · rintro errors ⟨⟩
      exact ⟨rfl, .first hsplit hbefore hwrong⟩

/-- A line that goes back to no level and begins with a bracket that closes nothing: what is
wrong is the indentation, whatever comes after. -/
theorem tokenize_rejects_exactly_dedent : ∃ lexemes,
    scan "if x:\n    y\n  )\n(".toList = .ok lexemes ∧
    Reported "if x:\n    y\n  )\n(".toList lexemes ⟨.unevenDedent, ⟨14, 15⟩⟩ := by
  generalize hsource : "if x:\n    y\n  )\n(" = source
  have hok : (scan source.toList).toOption.isSome = true := by
    rw [← hsource]
    decide +kernel
  have herror : tokenize source = .error ⟨⟨.unevenDedent, ⟨14, 15⟩⟩, []⟩ := by
    rw [← hsource]
    decide +kernel
  cases hscan : scan source.toList with
  | error errors => simp [hscan, Except.toOption] at hok
  | ok lexemes => exact ⟨lexemes, rfl, ((tokenize_rejects_exactly hscan).2 _ herror).2⟩

end Scrutiny
