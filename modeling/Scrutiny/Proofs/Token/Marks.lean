/-
The marks that the layout puts in.

Three things are kept up from step to step.  As many blocks are open in what has
been put out as there are widths on the stack (`Blocks`), so that indents and
dedents pair off like brackets.  Marks stand only where a line begins (`MayFollow`).
And all that is not a mark is passed on as it came.
-/
import Mathlib.Data.List.Chain
import Scrutiny.Proofs.Token.Nesting
import Scrutiny.Proofs.Token.Scanning

namespace Scrutiny

variable {lines : List LogicalLine} {n : Nat} {out read : List Lexeme} {state : State}
  {tokens : List Token}

/-! ### Blocks that are opened and closed -/

/-- Some tokens leave `n` blocks open, and never closed one that was not. -/
structure Blocks (n : Nat) (tokens : List Token) : Prop where
  closed : ∀ front, front <+: tokens → front.count .dedent ≤ front.count .indent
  left : tokens.count .indent = tokens.count .dedent + n

namespace Blocks

theorem nil : Blocks 0 [] := by
  refine ⟨?_, rfl⟩
  intro front hfront
  rw [List.prefix_nil.mp hfront]
  exact Nat.le_refl _

/-- One more token changes the number of open blocks by what it opens or closes. -/
theorem concat {m : Nat} {t : Token} (h : Blocks m tokens)
    (ht : m + [t].count .indent = n + [t].count .dedent) : Blocks n (tokens ++ [t]) := by
  have hleft := h.left
  refine ⟨?_, by rw [List.count_append, List.count_append]; omega⟩
  intro front hfront
  rcases List.prefix_concat_iff.mp hfront with rfl | hfront
  · rw [List.count_append, List.count_append]
    omega
  · exact h.closed front hfront

theorem plain {n : Nat} {tokens : List Token} {t : Token} (h : Blocks n tokens)
    (ht : t ≠ .indent ∧ t ≠ .dedent) : Blocks n (tokens ++ [t]) :=
  h.concat (by simp [ht.1, ht.2])

theorem dedents (k : Nat) (h : Blocks (n + k) tokens) :
    Blocks n (tokens ++ List.replicate k .dedent) := by
  induction k generalizing n with
  | zero => simpa using h
  | succ k ih =>
    have hk : Blocks (n + 1) (tokens ++ List.replicate k .dedent) :=
      ih (by rwa [Nat.add_assoc, Nat.add_comm 1 k])
    rw [List.replicate_succ', ← List.append_assoc]
    exact hk.concat (by simp)

end Blocks

namespace Layout

variable {cs : List Char} {table : LineTable}

/-- The open blocks are the widths on the stack. -/
theorem Steps.blocks (h : Steps cs table .initial read state out lines) (hread : Scanned cs read) :
    Blocks state.indents.length (out.map Lexeme.token) := by
  induction h with
  | nil => exact Blocks.nil
  | @snoc read state next out more lines ended lexeme hsteps hstep ih =>
    have hblocks := ih hread.init
    have hplain := hread.last.token_ne
    cases hstep with
    | blank hnewline hline => simpa using hblocks
    | inner hnewline hopen => simpa using hblocks
    | ending hnewline hline hclosed => simpa using hblocks.plain hplain
    | further hother hline hbrackets => simpa using hblocks.plain hplain
    | @first indents marks brackets hother hline hindent hbrackets =>
      have hput : Blocks indents.length (out.map Lexeme.token ++ marks) := by
        rcases reindent?_cases hindent with ⟨rfl, rfl⟩ | ⟨left, -, hleft, rfl⟩
        · exact hblocks.concat (by simp)
        · rw [← hleft] at hblocks
          exact hblocks.dedents left
      simpa [Function.comp_def] using hput.plain hplain

end Layout

/-! ### Where marks may stand -/

/-- Which token may directly follow which. -/
structure MayFollow (a b : Token) : Prop where
  indent : b = .indent → a = .newline
  dedent : b = .dedent → a = .newline ∨ a = .dedent
  afterIndent : a = .indent → b.isMark = false

/-- Indents and dedents stand at the beginning of lines: an indent right before the
first token of the line, dedents right after the line before. -/
structure MarksPlaced (tokens : List Token) : Prop where
  indent_after : ∀ before after, tokens = before ++ .indent :: after →
    before = [] ∨ before.getLast? = some .newline
  indent_before : ∀ before after, tokens = before ++ .indent :: after →
    ∃ next rest, after = next :: rest ∧ next.isMark = false
  dedent_after : ∀ before after, tokens = before ++ .dedent :: after →
    before.getLast? = some .newline ∨ before.getLast? = some .dedent

/-- Tokens of which each may follow the one before, from nothing on. -/
structure InOrder (tokens : List Token) : Prop where
  chain : tokens.IsChain MayFollow
  head : tokens.head? ≠ some .dedent
  last : tokens.getLast? ≠ some .indent

namespace InOrder

variable {tokens : List Token} {t : Token}

theorem marksPlaced (h : InOrder tokens) : MarksPlaced tokens := by
  refine ⟨?_, ?_, ?_⟩
  · rintro before after rfl
    obtain ⟨-, -, hjoin⟩ := List.isChain_append.mp h.chain
    cases hbefore : before.getLast? with
    | none => exact Or.inl (List.getLast?_eq_none_iff.mp hbefore)
    | some prev => exact Or.inr (by rw [(hjoin prev hbefore .indent rfl).indent rfl])
  · rintro before after rfl
    obtain ⟨-, hafter, -⟩ := List.isChain_append.mp h.chain
    cases after with
    | nil => exact absurd (by simp) h.last
    | cons next rest =>
      exact ⟨next, rest, rfl, (List.isChain_cons_cons.mp hafter).1.afterIndent rfl⟩
  · rintro before after rfl
    obtain ⟨-, -, hjoin⟩ := List.isChain_append.mp h.chain
    cases hbefore : before.getLast? with
    | none =>
      have hhead := h.head
      rw [List.getLast?_eq_none_iff.mp hbefore] at hhead
      simp at hhead
    | some prev =>
      rcases (hjoin prev hbefore .dedent rfl).dedent rfl with rfl | rfl
      · exact Or.inl rfl
      · exact Or.inr rfl

theorem nil : InOrder [] := ⟨List.isChain_nil, by simp, by simp⟩

/-- A token that is no indent and no dedent may follow anything. -/
theorem plain (h : InOrder tokens) (ht : t ≠ .indent ∧ t ≠ .dedent) : InOrder (tokens ++ [t]) := by
  refine ⟨?_, ?_, by simpa using ht.1⟩
  · refine List.isChain_append.mpr ⟨h.chain, List.isChain_singleton t, ?_⟩
    intro prev hprev other hother
    obtain rfl : t = other := by simpa using hother
    refine ⟨fun hindent => absurd hindent ht.1, fun hdedent => absurd hdedent ht.2, ?_⟩
    rintro rfl
    exact absurd hprev h.last
  · cases tokens with
    | nil => simpa using ht.2
    | cons first rest => simpa using h.head

/-- Between two lines an indent may follow, with the first token of its line. -/
theorem indent (h : InOrder tokens) (hprev : ∀ prev ∈ tokens.getLast?, prev = .newline)
    (ht : t.isMark = false) : InOrder (tokens ++ [.indent] ++ [t]) := by
  have hne : t ≠ .indent ∧ t ≠ .dedent := by
    constructor
    · rintro rfl
      simp [Token.isMark] at ht
    · rintro rfl
      simp [Token.isMark] at ht
  refine ⟨?_, ?_, by simpa using hne.1⟩
  · rw [List.append_assoc]
    refine List.isChain_append.mpr ⟨h.chain, ?_, ?_⟩
    · refine List.isChain_cons_cons.mpr ⟨⟨?_, ?_, fun _ => ht⟩, List.isChain_singleton t⟩
      · exact fun hindent => absurd hindent hne.1
      · exact fun hdedent => absurd hdedent hne.2
    · intro prev hmem other hother
      obtain rfl : Token.indent = other := by simpa using hother
      obtain rfl := hprev prev hmem
      exact ⟨fun _ => rfl, fun hdedent => by simp at hdedent, fun hindent => by simp at hindent⟩
  · cases tokens with
    | nil => simp
    | cons first rest => simpa using h.head

/-- Between two lines dedents may follow, if there is a line before. -/
theorem dedents (h : InOrder tokens) (hprev : ∀ prev ∈ tokens.getLast?, prev = .newline)
    {k : Nat} (hput : k ≠ 0 → tokens ≠ []) : InOrder (tokens ++ List.replicate k .dedent) := by
  cases k with
  | zero => simpa using h
  | succ k =>
    refine ⟨?_, ?_, ?_⟩
    · refine List.isChain_append.mpr ⟨h.chain, ?_, ?_⟩
      · exact List.isChain_replicate_of_rel _
          ⟨fun hindent => by simp at hindent, fun _ => Or.inr rfl,
            fun hindent => by simp at hindent⟩
      · intro prev hmem other hother
        obtain rfl : Token.dedent = other := by simpa [List.replicate_succ] using hother
        obtain rfl := hprev prev hmem
        exact ⟨fun hindent => by simp at hindent, fun _ => Or.inl rfl,
          fun hindent => by simp at hindent⟩
    · cases tokens with
      | nil => exact absurd rfl (hput (by simp))
      | cons first rest => simpa using h.head
    · rw [List.getLast?_append, List.replicate_succ']
      simp

end InOrder

/-- With a block open something has been put out. -/
theorem Blocks.ne_nil (h : Blocks n tokens) (hn : n ≠ 0) : tokens ≠ [] := by
  rintro rfl
  have hleft := h.left
  rw [List.count_nil, List.count_nil] at hleft
  omega

namespace Layout

variable {cs : List Char} {table : LineTable}

/-- Tokens are put out in order, and between two lines the last of them is a newline. -/
theorem Steps.inOrder (h : Steps cs table .initial read state out lines) (hread : Scanned cs read) :
    InOrder (out.map Lexeme.token) ∧
      (state.line? = none → ∀ prev ∈ (out.map Lexeme.token).getLast?, prev = .newline) := by
  induction h with
  | nil => exact ⟨InOrder.nil, by simp⟩
  | @snoc read state next out more lines ended lexeme hsteps hstep ih =>
    obtain ⟨horder, hbetween⟩ := ih hread.init
    have hplain := hread.last.token_ne
    cases hstep with
    | blank hnewline hline =>
      rw [List.append_nil]
      exact ⟨horder, hbetween⟩
    | inner hnewline hopen =>
      rw [List.append_nil]
      exact ⟨horder, hbetween⟩
    | ending hnewline hline hclosed =>
      refine ⟨by simpa using horder.plain hplain, fun _ prev hprev => ?_⟩
      rw [← hnewline]
      simpa using hprev.symm
    | further hother hline hbrackets =>
      exact ⟨by simpa using horder.plain hplain, fun hnone => by simp at hnone⟩
    | @first indents marks brackets hother hline hindent hbrackets =>
      have hblocks := hsteps.blocks hread.init
      refine ⟨?_, fun hnone => by simp at hnone⟩
      simp only [List.map_append, List.map_map, Function.comp_def, List.map_cons,
        List.map_nil, List.map_id', ← List.append_assoc]
      rcases reindent?_cases hindent with ⟨-, rfl⟩ | ⟨left, hle, -, rfl⟩
      · exact horder.indent (hbetween hline) (isMark_eq_false hother hplain)
      · refine (horder.dedents (hbetween hline) fun hleft => ?_).plain hplain
        exact hblocks.ne_nil (by omega)

/-! ### What is not a mark -/

/-- Everything but marks is passed on as it came. -/
theorem Steps.unmarked
    (h : Steps cs table .initial read state out lines) (hread : Scanned cs read) :
    out.filter (!·.token.isMark) = read.filter (·.token ≠ .newline) := by
  induction h with
  | nil => rfl
  | @snoc read state next out more lines ended lexeme hsteps hstep ih =>
    have hkept := ih hread.init
    have hplain := hread.last.token_ne
    rw [List.filter_append, List.filter_append, hkept]
    congr 1
    cases hstep with
    | blank hnewline hline => simp [hnewline]
    | inner hnewline hopen => simp [hnewline]
    | ending hnewline hline hclosed => simp [hnewline, Token.isMark]
    | further hother hline hbrackets =>
      simp [hother, isMark_eq_false hother hplain]
    | @first indents marks brackets hother hline hindent hbrackets =>
      have hmarks : (marks.map fun mark => (⟨mark, .point lexeme.span.start⟩ : Lexeme)).filter
          (!·.token.isMark) = [] := by
        rw [List.filter_eq_nil_iff]
        intro other hother
        obtain ⟨mark, hmark, rfl⟩ := List.mem_map.mp hother
        simp [reindent?_isMark hindent mark hmark]
      rw [List.filter_append, hmarks]
      simp [hother, isMark_eq_false hother hplain]

end Layout

end Scrutiny
