/-
Brackets of a token stream.

`Nested` is what it means for the brackets of some tokens to pair off: each opening
bracket has a partner of its kind behind it, with nested tokens between them, none
of which is a mark of the layout.  `Opened` is the same with some brackets left
open, innermost first.

The layout keeps a stack of open brackets, and `Steps.nesting` says what the stack
is good for.  It is stated from an arbitrary state on, because it is needed twice:
from the initial state it says that a whole stream is nested, and from a state in
the middle that the innermost bracket that is open there finds its partner later.
-/
import Scrutiny.Proofs.Token.Steps

namespace Scrutiny

variable {lines : List LogicalLine} {out read : List Lexeme} {state : State}

/-- None of some tokens is a mark of the layout. -/
def Unmarked (lexemes : List Lexeme) : Prop := ∀ lexeme ∈ lexemes, lexeme.token.isMark = false

/-- The brackets of some tokens pair off, and no mark stands between two partners. -/
inductive Nested : List Lexeme → Prop
  | nil : Nested []
  | other {lexeme : Lexeme} {rest : List Lexeme}
      (hother : ∀ b, lexeme.token ≠ .symbol (.opening b) ∧ lexeme.token ≠ .symbol (.closing b))
      (hrest : Nested rest) : Nested (lexeme :: rest)
  | pair {b : Bracket} {opener closer : Lexeme} {inside rest : List Lexeme}
      (hopener : opener.token = .symbol (.opening b))
      (hcloser : closer.token = .symbol (.closing b))
      (hunmarked : Unmarked inside) (hinside : Nested inside) (hrest : Nested rest) :
      Nested (opener :: inside ++ closer :: rest)

/-- The brackets of some tokens pair off but for those in the list, innermost first. -/
def Opened : List Bracket → List Lexeme → Prop
  | [], out => Nested out
  | b :: outer, out => ∃ before opener inside, out = before ++ opener :: inside ∧
      opener.token = .symbol (.opening b) ∧ Opened outer before ∧
      Unmarked inside ∧ Nested inside

theorem Unmarked.append {as bs : List Lexeme} (ha : Unmarked as) (hb : Unmarked bs) :
    Unmarked (as ++ bs) := by
  intro lexeme hlexeme
  rcases List.mem_append.mp hlexeme with hlexeme | hlexeme
  · exact ha lexeme hlexeme
  · exact hb lexeme hlexeme

namespace Nested

theorem append {as bs : List Lexeme} (ha : Nested as) (hb : Nested bs) : Nested (as ++ bs) := by
  induction ha with
  | nil => exact hb
  | other hother hrest ih => exact .other hother ih
  | @pair b opener closer inside rest hopener hcloser hunmarked hinside hrest _ ih =>
    have := Nested.pair hopener hcloser hunmarked hinside ih
    simpa [List.append_assoc] using this

theorem of_forall_other {lexemes : List Lexeme} (h : ∀ lexeme ∈ lexemes, ∀ b,
      lexeme.token ≠ .symbol (.opening b) ∧ lexeme.token ≠ .symbol (.closing b)) :
    Nested lexemes := by
  induction lexemes with
  | nil => exact .nil
  | cons lexeme rest ih =>
    exact .other (h lexeme (by simp)) (ih fun other hmem => h other (by simp [hmem]))

/-- Marks are no brackets. -/
theorem of_marks {lexemes : List Lexeme} (h : ∀ lexeme ∈ lexemes, lexeme.token.isMark = true) :
    Nested lexemes := by
  refine of_forall_other fun lexeme hlexeme b => ?_
  have hmark := h lexeme hlexeme
  constructor
  · intro htoken
    simp [htoken, Token.isMark] at hmark
  · intro htoken
    simp [htoken, Token.isMark] at hmark

end Nested

namespace Opened

variable {stack : List Bracket} {out : List Lexeme} {b : Bracket} {lexeme : Lexeme}

/-- Nested tokens leave open what was open; behind an open bracket they hold no mark. -/
theorem append (h : Opened stack out) {more : List Lexeme} (hmore : Nested more)
    (hunmarked : stack ≠ [] → Unmarked more) : Opened stack (out ++ more) := by
  cases stack with
  | nil => exact Nested.append h hmore
  | cons b outer =>
    obtain ⟨before, opener, inside, rfl, hopener, hbefore, hflat, hinside⟩ := h
    exact ⟨before, opener, inside ++ more, by simp, hopener, hbefore,
      hflat.append (hunmarked (by simp)), hinside.append hmore⟩

theorem opening (h : Opened stack out) (hopener : lexeme.token = .symbol (.opening b)) :
    Opened (b :: stack) (out ++ [lexeme]) :=
  ⟨out, lexeme, [], rfl, hopener, h, by intro other hother; simp at hother, .nil⟩

/-- A closing bracket of the right kind turns the innermost open one into a pair. -/
theorem closing (h : Opened (b :: stack) out) (hcloser : lexeme.token = .symbol (.closing b)) :
    Opened stack (out ++ [lexeme]) := by
  obtain ⟨before, opener, inside, rfl, hopener, hbefore, hflat, hinside⟩ := h
  have hpair : Nested (opener :: inside ++ [lexeme]) :=
    .pair hopener hcloser hflat hinside .nil
  have hunmarked : Unmarked (opener :: inside ++ [lexeme]) := by
    intro other hother
    simp only [List.cons_append, List.mem_cons, List.mem_append, List.not_mem_nil,
      or_false] at hother
    rcases hother with rfl | hother | rfl
    · simp [hopener, Token.isMark]
    · exact hflat other hother
    · simp [hcloser, Token.isMark]
  have := hbefore.append hpair fun _ => hunmarked
  simpa [List.append_assoc] using this

end Opened

namespace Layout

variable {cs : List Char} {table : LineTable}

/-- The marks of a changed indentation are marks. -/
theorem reindent?_isMark {indents kept : List Nat} {width : Nat} {marks : List Token}
    (h : reindent? indents width = some (kept, marks)) : ∀ mark ∈ marks, mark.isMark = true := by
  intro mark hmark
  rcases reindent?_cases h with ⟨-, rfl⟩ | ⟨left, -, -, rfl⟩
  · rw [List.mem_singleton.mp hmark]
    rfl
  · rw [List.eq_of_mem_replicate hmark]
    rfl

/-- A token that was scanned and is no newline is no mark. -/
theorem isMark_eq_false {token : Token} (hnewline : token ≠ .newline)
    (hscanned : token ≠ .indent ∧ token ≠ .dedent) : token.isMark = false := by
  cases token <;> simp_all [Token.isMark]

/--
From any state on, either the brackets open there are still open, and what has been
put out since is nested but for the ones opened since; or the innermost of them has
been closed, with nested tokens before its partner.
-/
theorem Steps.nesting {start : State} (h : Steps cs table start read state out lines)
    (hstart : start.brackets ≠ [] → start.line? ≠ none)
    (hscanned : ∀ lexeme ∈ read, lexeme.token ≠ .indent ∧ lexeme.token ≠ .dedent) :
    (∃ since, state.brackets = since ++ start.brackets ∧ Opened (since.map Prod.fst) out ∧
        (start.brackets ≠ [] → Unmarked out)) ∨
      ∃ b span outer inside closer rest, start.brackets = (b, span) :: outer ∧
        out = inside ++ closer :: rest ∧ closer.token = .symbol (.closing b) ∧
        Unmarked inside ∧ Nested inside := by
  induction h with
  | nil => exact Or.inl ⟨[], rfl, .nil, fun _ lexeme hlexeme => by simp at hlexeme⟩
  | @snoc read state next out more lines ended lexeme hsteps hstep ih =>
    have hlexeme := hscanned lexeme (by simp)
    have hline := hsteps.line_of_open hstart
    rcases ih fun other hother => hscanned other (by simp [hother]) with
      ⟨since, hsince, hopened, hflat⟩ |
      ⟨b, span, outer, inside, closer, rest, hb, rfl, hcloser, hinside⟩
    · cases hstep with
      | blank hnewline hnone =>
        exact Or.inl ⟨since, hsince, by simpa using hopened, by simpa using hflat⟩
      | inner hnewline hopen =>
        exact Or.inl ⟨since, hsince, by simpa using hopened, by simpa using hflat⟩
      | ending hnewline hsome hclosed =>
        rw [hclosed] at hsince
        obtain ⟨rfl, hnone⟩ := List.append_eq_nil_iff.mp hsince.symm
        refine Or.inl ⟨[], by simp [hclosed, hnone], ?_, fun hne => absurd hnone hne⟩
        refine hopened.append (Nested.of_marks ?_) fun hne => absurd rfl hne
        intro other hother
        simp [List.mem_singleton.mp hother, hnewline, Token.isMark]
      | @first indents marks brackets hother hnone hindent hbrackets =>
        -- No line is in progress, so nothing is open, now or at the start.
        have hclosed : state.brackets = [] := by
          by_contra hopen
          exact hline hopen hnone
        rw [hclosed] at hsince hbrackets
        obtain ⟨rfl, hempty⟩ := List.append_eq_nil_iff.mp hsince.symm
        have hmarks : Nested (marks.map (⟨·, .point lexeme.span.start⟩)) := by
          refine Nested.of_marks fun other hmem => ?_
          obtain ⟨mark, hmark, rfl⟩ := List.mem_map.mp hmem
          exact reindent?_isMark hindent mark hmark
        have hput := hopened.append hmarks fun hne => absurd rfl hne
        rw [← List.append_assoc]
        rcases matchBrackets_cases hbrackets with
          ⟨b, hopener, rfl⟩ | ⟨b, span, -, hbad⟩ | ⟨hneither, rfl⟩
        · exact Or.inl ⟨[(b, lexeme.span)], by simp [hempty], hput.opening hopener,
            fun hne => absurd hempty hne⟩
        · simp at hbad
        · refine Or.inl ⟨[], by simp [hempty], ?_, fun hne => absurd hempty hne⟩
          exact hput.append (.other hneither .nil) fun hne => absurd rfl hne
      | @further line brackets hother hsome hbrackets =>
        have hplain : Unmarked [lexeme] := by
          intro other hmem
          rw [List.mem_singleton.mp hmem]
          exact isMark_eq_false hother hlexeme
        rcases matchBrackets_cases hbrackets with
          ⟨b, hopener, rfl⟩ | ⟨b, span, hcloser, hstack⟩ | ⟨hneither, rfl⟩
        · exact Or.inl ⟨(b, lexeme.span) :: since, by simp [hsince],
            hopened.opening hopener, fun hne => (hflat hne).append hplain⟩
        · rw [hsince] at hstack
          cases since with
          | nil =>
            refine Or.inr ⟨b, span, brackets, out, lexeme, [], hstack, rfl, hcloser, ?_, ?_⟩
            · exact hflat (by rw [List.nil_append] at hstack; simp [hstack])
            · exact hopened
          | cons top since =>
            simp only [List.cons_append, List.cons.injEq] at hstack
            obtain ⟨rfl, hrest⟩ := hstack
            exact Or.inl ⟨since, hrest.symm, hopened.closing hcloser,
              fun hne => (hflat hne).append hplain⟩
        · exact Or.inl ⟨since, hsince, hopened.append (.other hneither .nil) fun _ => hplain,
            fun hne => (hflat hne).append hplain⟩
    · exact Or.inr ⟨b, span, outer, inside, closer, rest ++ more, hb, by simp, hcloser, hinside⟩

/-- From the start on, what is put out is nested but for the brackets on the stack. -/
theorem Steps.opened (h : Steps cs table .initial read state out lines)
    (hscanned : ∀ lexeme ∈ read, lexeme.token ≠ .indent ∧ lexeme.token ≠ .dedent) :
    Opened (state.brackets.map Prod.fst) out := by
  rcases h.nesting (by simp [State.initial]) hscanned with
    ⟨since, hsince, hopened, -⟩ | ⟨b, span, outer, inside, closer, rest, hb, -⟩
  · rw [hsince]
    simpa [State.initial] using hopened
  · simp [State.initial] at hb

/-- An open bracket that is not open at the end has found its partner. -/
theorem Steps.closed {start : State} (h : Steps cs table start read state out lines)
    (hstart : start.brackets ≠ [] → start.line? ≠ none)
    (hscanned : ∀ lexeme ∈ read, lexeme.token ≠ .indent ∧ lexeme.token ≠ .dedent)
    {b : Bracket} {span : Span} {outer : List (Bracket × Span)}
    (hopen : start.brackets = (b, span) :: outer) (hclosed : state.brackets = []) :
    ∃ inside closer rest, out = inside ++ closer :: rest ∧
      closer.token = .symbol (.closing b) ∧ Unmarked inside ∧ Nested inside := by
  rcases h.nesting hstart hscanned with
    ⟨since, hsince, -⟩ | ⟨b', span', outer', inside, closer, rest, hb, hout, hcloser, hinside⟩
  · simp [hclosed, hopen] at hsince
  · rw [hopen] at hb
    obtain ⟨hpair, -⟩ := List.cons.inj hb
    obtain ⟨rfl, -⟩ := Prod.mk.inj hpair
    exact ⟨inside, closer, rest, hout, hcloser, hinside⟩

/-- At any place inside brackets the innermost open one was put out before it, and
its partner is put out after it. -/
theorem Steps.around {mid last : State} {front back out₁ out₂ : List Lexeme}
    {lines₁ lines₂ : List LogicalLine} (h₁ : Steps cs table .initial front mid out₁ lines₁)
    (h₂ : Steps cs table mid back last out₂ lines₂)
    (hfront : ∀ lexeme ∈ front, lexeme.token ≠ .indent ∧ lexeme.token ≠ .dedent)
    (hback : ∀ lexeme ∈ back, lexeme.token ≠ .indent ∧ lexeme.token ≠ .dedent)
    (hopen : mid.brackets ≠ []) (hclosed : last.brackets = []) :
    ∃ b left opener inside closer right,
      out₁ ++ out₂ = left ++ opener :: inside ++ closer :: right ∧
      opener.token = .symbol (.opening b) ∧ closer.token = .symbol (.closing b) ∧
      Nested inside ∧ opener ∈ out₁ ∧ closer ∈ out₂ := by
  have hline := h₁.line_of_open (by simp [State.initial])
  have hopened := h₁.opened hfront
  cases hstack : mid.brackets with
  | nil => exact absurd hstack hopen
  | cons top outer =>
    obtain ⟨b, span⟩ := top
    rw [hstack] at hopened
    obtain ⟨left, opener, inside₁, rfl, hopener, -, -, hinside₁⟩ := hopened
    obtain ⟨inside₂, closer, right, rfl, hcloser, -, hinside₂⟩ :=
      h₂.closed hline hback hstack hclosed
    exact ⟨b, left, opener, inside₁ ++ inside₂, closer, right, by simp, hopener, hcloser,
      hinside₁.append hinside₂, by simp, by simp⟩

end Layout

end Scrutiny
