/-
Errors are local.

What is wrong with a text is wrong with it behind another text that can be parsed, if
that one ends with the end of a line: the whole fails at the same place of the second
text, in the same words (`buildTree_append_error`).  Only lines are counted from the
beginning of the whole, in the position and where a fault names a line.

A text fails in its tokens, in its grammar or in what it assigns to, and each is followed
from the second text to the whole by what has been proved of that stage.  A grammar error
at the very first token is left out, because behind a statement that it could belong to
the token may be no error, or be found wrong at another.
-/
import Scrutiny.Proofs.Grammar.Composition
import Scrutiny.Proofs.Grammar.Placement
import Scrutiny.Tree

namespace Scrutiny

variable {d : Nat} {error : SyntaxError} {front tokens : List Lexeme} {source : String} {x : Lexeme}

/-! ### How a text fails -/

/-- The three ways for a text to have no module, with the error that is reported first. -/
inductive Fails (source : String) : SyntaxError → Prop
  | token {errors : TokenErrors} (htokens : tokenize source = .error errors) :
      Fails source ⟨.token errors.first.fault, errors.first.span⟩
  | grammar {stream : TokenStream} {far : Nat} (htokens : tokenize source = .ok stream)
      (hread : Grammar.moduleUpTo stream.tokens.length (.start stream.tokens) = ⟨far, none⟩) :
      Fails source (Grammar.errorAt stream.tokens (byteLength source.toList) far)
  | target {stream : TokenStream} {module : Module} {last : Cursor} {found : TargetFault × Span}
      (htokens : tokenize source = .ok stream)
      (hread : (Grammar.moduleUpTo stream.tokens.length (.start stream.tokens)).result
        = some (module, last))
      (hfound : module.targetFault? = some found) : Fails source ⟨.target found.1, found.2⟩

theorem Fails.parse_eq (h : Fails source error) : ∃ more, parse source = .error ⟨error, more⟩ := by
  cases h with
  | token htokens =>
    simp only [parse, htokens]
    exact ⟨_, rfl⟩
  | grammar htokens hread =>
    simp only [parse, htokens, parseTokens, hread]
    exact ⟨_, rfl⟩
  | target htokens hread hfound =>
    simp only [parse, htokens, parseTokens, hread, hfound]
    exact ⟨_, rfl⟩

theorem Fails.buildTree_eq (h : Fails source error) :
    buildTree source = .error (.ofError source.toList (.ofText source.toList) error) := by
  cases h with
  | token htokens => simp only [buildTree, htokens, SyntaxErrors.ofTokenErrors]
  | grammar htokens hread =>
    simp only [buildTree, htokens, parseTokens, hread, LineTable.ofText]
  | target htokens hread hfound =>
    simp only [buildTree, htokens, parseTokens, hread, hfound]

/-- A text that does not fail has a module, and a tree with it. -/
theorem fails_or_parses (source : String) : (∃ error, Fails source error) ∨
    ∃ module stream, tokenize source = .ok stream ∧ parse source = .ok module ∧
      buildTree source = .ok ⟨module, .ofText source.toList, stream.lines⟩ := by
  cases htokens : tokenize source with
  | error errors => exact Or.inl ⟨_, .token htokens⟩
  | ok stream =>
    cases hread : Grammar.moduleUpTo stream.tokens.length (.start stream.tokens) with
    | mk far result =>
      cases result with
      | none => exact Or.inl ⟨_, .grammar htokens hread⟩
      | some found =>
        cases hfound : found.1.targetFault? with
        | some fault =>
          exact Or.inl ⟨_, .target htokens (congrArg Reply.result hread) hfound⟩
        | none =>
          refine Or.inr ⟨found.1, stream, rfl, ?_, ?_⟩
          · simp only [parse, htokens, parseTokens, hread, hfound]
          · simp only [buildTree, htokens, parseTokens, hread, hfound]

/-- A text without a tree fails in one of the three ways. -/
theorem fails_of_buildTree {failure : SyntaxFailure}
    (h : buildTree source = .error failure) : ∃ error, Fails source error ∧
      failure = .ofError source.toList (.ofText source.toList) error := by
  rcases fails_or_parses source with ⟨error, hfails⟩ | ⟨module, stream, -, -, htree⟩
  · rw [hfails.buildTree_eq] at h
    exact ⟨error, hfails, (Except.error.inj h).symm⟩
  · simp [htree] at h

/-! ### Grammar errors -/

namespace Grammar

theorem endsInColonLine_shift (front : List Lexeme) (d : Nat) (hx : x.token ≠ .newline)
    (tokens : List Lexeme) :
    endsInColonLine (front ++ (x :: tokens).map (Lexeme.shift d))
      = endsInColonLine (x :: tokens) := by
  unfold endsInColonLine
  rw [List.reverse_append, List.map_cons, List.reverse_cons, List.reverse_cons, ← List.map_reverse]
  cases tokens.reverse with
  | nil =>
    cases front.reverse with
    | nil => rfl
    | cons y front => simp [hx]
  | cons y tokens =>
    cases tokens with
    | nil => simp
    | cons z tokens => simp

/-- The tokens before the first one like `lexeme` at its place. -/
def tokensBefore (tokens : List Lexeme) (lexeme : Lexeme) : List Lexeme :=
  tokens.takeWhile fun other =>
    !(other.span.start == lexeme.span.start && other.token == lexeme.token)

theorem faultAt_some (tokens : List Lexeme) (lexeme : Lexeme) :
    faultAt tokens (some lexeme) = if lexeme.token = .indent then .unexpectedIndent
      else if endsInColonLine (tokensBefore tokens lexeme) then .missingBlock else .invalid := rfl

theorem tokensBefore_shift {lexeme : Lexeme}
    (hfront : ∀ z ∈ front, z.span.start ≠ lexeme.span.start + d) (tokens : List Lexeme) :
    tokensBefore (front ++ tokens.map (Lexeme.shift d)) (lexeme.shift d)
      = front ++ (tokensBefore tokens lexeme).map (Lexeme.shift d) := by
  unfold tokensBefore
  rw [List.takeWhile_append_of_pos fun z hz => by simp [hfront z hz], List.takeWhile_map]
  have hsame : (fun other : Lexeme => !(other.span.start == (lexeme.shift d).span.start &&
        other.token == (lexeme.shift d).token)) ∘ Lexeme.shift d
      = fun other => !(other.span.start == lexeme.span.start && other.token == lexeme.token) := by
    funext other
    rw [Bool.eq_iff_iff]
    simp
  rw [hsame]

/-- What is wrong at a token behind the first. -/
theorem faultAt_shift (hx : x.token ≠ .newline)
    {found : Option Lexeme} (hfront : ∀ y ∈ found, ∀ z ∈ front, z.span.start ≠ y.span.start + d)
    (hfirst : ∀ y ∈ found, x.span.start ≠ y.span.start) :
    faultAt (front ++ (x :: tokens).map (Lexeme.shift d)) (found.map (Lexeme.shift d))
      = faultAt (x :: tokens) found := by
  cases found with
  | none =>
    simp only [Option.map_none, faultAt]
    rw [endsInColonLine_shift front d hx]
  | some y =>
    have htake : tokensBefore (x :: tokens) y = x :: tokensBefore tokens y :=
      List.takeWhile_cons_of_pos (by simp [hfirst y rfl])
    rw [Option.map_some, faultAt_some, faultAt_some, tokensBefore_shift (hfront y rfl), htake,
      endsInColonLine_shift front d hx, Lexeme.shift_token]

/-- Where a grammar error is, counted from the seam. -/
theorem errorAt_shift {size far : Nat} (hx : x.token ≠ .newline)
    (hfront : ∀ y ∈ (x :: tokens)[far]?, ∀ z ∈ front, z.span.start ≠ y.span.start + d)
    (hfirst : ∀ y ∈ (x :: tokens)[far]?, x.span.start ≠ y.span.start) :
    (errorAt (front ++ (x :: tokens).map (Lexeme.shift d)) (size + d) (far + front.length)).fault
        = (errorAt (x :: tokens) size far).fault ∧
      (errorAt (front ++ (x :: tokens).map (Lexeme.shift d)) (size + d)
        (far + front.length)).span.start
        = (errorAt (x :: tokens) size far).span.start + d := by
  have hget : (front ++ (x :: tokens).map (Lexeme.shift d))[far + front.length]?
      = (x :: tokens)[far]?.map (Lexeme.shift d) := by
    rw [List.getElem?_append_right (Nat.le_add_left _ _), Nat.add_sub_cancel, List.getElem?_map]
  unfold errorAt
  simp only [hget]
  refine ⟨congrArg SyntaxFault.grammar (faultAt_shift hx hfront hfirst), ?_⟩
  cases (x :: tokens)[far]? with
  | none => rfl
  | some y => rfl

end Grammar

/-! ### The whole text fails alike -/

/-- A fault `n` lines further down. -/
def SyntaxFault.lower (n : Nat) : SyntaxFault → SyntaxFault
  | .token fault => .token (fault.lower n)
  | fault => fault

variable {source more : String} {first : Module}

/-- A text with a stream that begins at the margin begins with its first token. -/
theorem StartsAtMargin.head {stream : TokenStream}
    (hmargin : StartsAtMargin more.toList) (hstream : tokenize more = .ok stream)
    (htokens : stream.tokens = x :: tokens) : x ∈ firstToken? more.toList := by
  have hhead := tokenize_head hstream
  rw [htokens, List.head?_cons] at hhead
  obtain ⟨y, hy, hx⟩ := Option.map_eq_some_iff.mp hhead.symm
  rw [if_pos (hmargin y hy)] at hx
  exact hx ▸ hy

theorem firstToken?_spec (hx : x ∈ firstToken? more.toList) :
    x.token ≠ .newline ∧ x.span.start < x.span.stop := by
  have hmem := List.mem_of_find?_eq_some hx
  exact ⟨by simpa using List.find?_some hx, lexemesFrom_nonempty (pieces_nonempty _) 0 x hmem⟩

theorem Module.targetFault?_moved {body body' : List Stmt} {u : Nat → Nat}
    (h : body.map (Stmt.respan u) = body'.map (Stmt.respan id)) : (⟨body'⟩ : Module).targetFault?
      = (⟨body⟩ : Module).targetFault?.map fun found => (found.1, found.2.respan u) := by
  have hleft := Module.targetFault?_recast (.respan u) body
  have hright := Module.targetFault?_recast (.respan id) body'
  have hmoved :=
    hright.symm.trans ((congrArg (fun stmts => Module.targetFault? ⟨stmts⟩) h.symm).trans hleft)
  exact Option.map_id'.symm.trans hmoved

/-- Behind its first token a text is read as it is alone, up to the same token. -/
theorem LineEndsAt.grammar_append {stream : TokenStream} {far : Nat}
    (hcut : LineEndsAt (source ++ more).toList (byteLength source.toList))
    (hfirst : parse source = .ok first) (hmargin : StartsAtMargin more.toList)
    (htokens : tokenize more = .ok stream)
    (hread : Grammar.moduleUpTo stream.tokens.length (.start stream.tokens) = ⟨far, none⟩)
    (hfar : far ≠ 0) : ∃ error', Fails (source ++ more) error' ∧
      error'.fault = (Grammar.errorAt stream.tokens (byteLength more.toList) far).fault ∧
      error'.span.start = (Grammar.errorAt stream.tokens (byteLength more.toList) far).span.start
        + byteLength source.toList := by
  have hfresh : ∀ x ∈ stream.tokens.head?, x.token.continuesStmt = false :=
    Grammar.moduleUpTo_fresh (n := stream.tokens.length) fun hnone => by
      rw [hread, Reply.mk.injEq] at hnone
      exact hfar hnone.1
  obtain ⟨front, stream', stmts, hstream', hcat, -, hjoined⟩ :=
    hcut.moduleUpTo_joined hfirst hmargin htokens hfresh
      (u := (· + byteLength source.toList)) (v := id) fun _ => rfl
  obtain ⟨hnone, hle⟩ := hjoined.fails (congrArg Reply.result hread)
  have hfar' := hjoined.far
  rw [hread] at hfar'
  simp only [Pairing.moved] at hle hfar'
  have hwhole : Grammar.moduleUpTo stream'.tokens.length (.start stream'.tokens)
      = ⟨far + front.length, none⟩ := by
    rw [← hnone, ← hfar', Nat.max_eq_left hle]
  have hfailure := Fails.grammar hstream' hwhole
  refine ⟨_, hfailure, ?_⟩
  rw [String.toList_append, byteLength_append, Nat.add_comm, hcat]
  cases hsplit : stream.tokens with
  | nil =>
    rw [hsplit, List.length_nil, Grammar.moduleUpTo_nil] at hread
    simp at hread
  | cons x tokens =>
    obtain ⟨hx, hlt⟩ := firstToken?_spec (hmargin.head htokens hsplit)
    -- Tokens are in order, and the first of them is not empty.
    have hordered := tokenize_ordered hstream'
    have hinside := tokenize_inside hstream'
    rw [hcat, hsplit, List.map_cons] at hordered hinside
    obtain ⟨-, hback, hseam⟩ := List.pairwise_append.mp hordered
    have hbehind : ∀ y ∈ (x :: tokens)[far]?, x.span.stop ≤ y.span.start := by
      intro y hy
      obtain ⟨k, rfl⟩ := Nat.exists_eq_succ_of_ne_zero hfar
      rw [List.getElem?_cons_succ] at hy
      have hle := (List.pairwise_cons.mp hback).1 _ (List.mem_map_of_mem (List.mem_of_getElem? hy))
      exact Nat.le_of_add_le_add_right hle
    refine Grammar.errorAt_shift hx (fun y hy z hz => ?_) fun y hy => ?_
    · have hz₁ := hinside z (by simp [hz])
      have hz₂ := hseam z hz (x.shift _) List.mem_cons_self
      have hy := hbehind y hy
      rw [Lexeme.shift_start] at hz₂
      omega
    · have := hbehind y hy
      omega

theorem Fails.append (hfails : Fails more error) (hfirst : parse source = .ok first)
    (hcut : LineEndsAt (source ++ more).toList (byteLength source.toList))
    (hmargin : StartsAtMargin more.toList) (hlater : ∀ fault, error.fault = .grammar fault →
      ∀ x ∈ firstToken? more.toList, error.span ≠ x.span) :
    ∃ error', Fails (source ++ more) error' ∧
      error'.fault = error.fault.lower (source.toList.count '\n') ∧
      error'.span.start = error.span.start + byteLength source.toList := by
  have huv : ∀ k, k + byteLength source.toList = id (k + byteLength source.toList) := fun _ => rfl
  cases hfails with
  | token htokens =>
    obtain ⟨stream, -, hstream, -⟩ := parse_cases hfirst
    obtain ⟨later, hwhole⟩ := tokenize_append_error hcut hstream hmargin htokens
    exact ⟨_, .token hwhole, rfl, rfl⟩
  | @target stream module last found htokens hread hfound =>
    have hfresh : ∀ x ∈ stream.tokens.head?, x.token.continuesStmt = false :=
      Grammar.moduleUpTo_fresh (n := stream.tokens.length) fun hnone => by simp [hnone] at hread
    obtain ⟨front, stream', stmts, hstream', -, hbare, hjoined⟩ :=
      hcut.moduleUpTo_joined hfirst hmargin htokens hfresh huv
    obtain ⟨second, last', hwhole, hsecond⟩ := hjoined.reads module last hread
    have htarget : (⟨stmts ++ second⟩ : Module).targetFault?
        = some (found.1, found.2.respan (· + byteLength source.toList)) := by
      rw [Module.targetFault?_append, Module.targetFault?_bare hbare (parse_targetFault? hfirst),
        Option.none_or, Module.targetFault?_moved hsecond]
      exact congrArg (Option.map _) hfound
    exact ⟨_, .target hstream' hwhole htarget, rfl, rfl⟩
  | @grammar stream far htokens hread =>
    have hfar : far ≠ 0 := by
      rintro rfl
      cases hsplit : stream.tokens with
      | nil =>
        rw [hsplit, List.length_nil, Grammar.moduleUpTo_nil] at hread
        simp at hread
      | cons x tokens =>
        refine hlater _ rfl x (hmargin.head htokens hsplit) ?_
        rw [hsplit]
        rfl
    exact hcut.grammar_append hfirst hmargin htokens hread hfar

/-- The error of a text, if it is one of grammar, is not at its first token. -/
def FailsPastFirst (source : String) : Prop :=
  ∀ errors fault, parse source = .error errors → errors.first.fault = .grammar fault →
    ∀ x ∈ firstToken? source.toList, errors.first.span ≠ x.span

/-- Two messages are the same, but for the number of a line, which is `n` greater. -/
inductive SameMessage (n : Nat) : String → String → Prop
  | same (message : String) : SameMessage n message message
  | lower (head : String) (line : Nat) :
      SameMessage n (head ++ "(detected at line " ++ toString line ++ ")")
        (head ++ "(detected at line " ++ toString (line + n) ++ ")")

theorem SyntaxFault.sameMessage (n : Nat) (fault : SyntaxFault) :
    SameMessage n fault.message (fault.lower n).message := by
  cases fault with
  | grammar fault => exact .same _
  | target fault => exact .same _
  | token fault =>
    cases fault with
    | unclosedTriple line => exact .lower "unterminated triple-quoted string literal " line
    | unclosedQuote line => exact .lower "unterminated string literal " line
    | _ => exact .same _

/-- Where an error is reported, behind whole lines. -/
theorem SyntaxFailure.position_shift {a b : List Char} (ha : EndsLine a)
    (hb : isBlankText b = false) {error' : SyntaxError}
    (hstart : error'.span.start = error.span.start + byteLength a) :
    (SyntaxFailure.ofError (a ++ b) (.ofText (a ++ b)) error').position
      = ⟨(SyntaxFailure.ofError b (.ofText b) error).position.line + a.count '\n',
        (SyntaxFailure.ofError b (.ofText b) error).position.column⟩ := by
  have hoffset : min error'.span.start (byteLength (trimEnd (a ++ b)))
      = min error.span.start (byteLength (trimEnd b)) + byteLength a := by
    rw [trimEnd_append _ hb, byteLength_append, hstart]
    omega
  have hposition := LineTable.position_shift ha b (min error.span.start (byteLength (trimEnd b)))
  rwa [← hoffset] at hposition

/-- **Errors are local.** -/
theorem buildTree_append_error {failure : SyntaxFailure} (hfirst : parse source = .ok first)
    (hfails : buildTree more = .error failure) (hwritten : isBlankText more.toList = false)
    (hcut : LineEndsAt (source ++ more).toList (byteLength source.toList))
    (hmargin : StartsAtMargin more.toList) (hlater : FailsPastFirst more) :
    ∃ failure', buildTree (source ++ more) = .error failure' ∧
      failure'.position.column = failure.position.column ∧
      failure'.position.line = failure.position.line + source.toList.count '\n' ∧
      SameMessage (source.toList.count '\n') failure.message failure'.message := by
  obtain ⟨error, herror, rfl⟩ := fails_of_buildTree hfails
  obtain ⟨later, hparse⟩ := herror.parse_eq
  obtain ⟨error', herror', hfault, hstart⟩ :=
    herror.append hfirst hcut hmargin fun fault hgrammar => hlater _ fault hparse hgrammar
  refine ⟨_, herror'.buildTree_eq, ?_⟩
  rw [String.toList_append] at hcut ⊢
  have hposition := SyntaxFailure.position_shift hcut.endsLine hwritten hstart
  have hmessage := SyntaxFault.sameMessage (source.toList.count '\n') error.fault
  rw [← hfault] at hmessage
  exact ⟨congrArg (·.column) hposition, congrArg (·.line) hposition, hmessage⟩

/-- A block that is missing, behind one that is closed by its line. -/
theorem buildTree_append_error_block :
    ∃ failure failure', buildTree "while c:\nd = 2\n" = .error failure ∧
      buildTree ("if a:\n  b = 1\n" ++ "while c:\nd = 2\n") = .error failure' ∧
      failure'.position.column = failure.position.column ∧
      failure'.position.line = failure.position.line + "if a:\n  b = 1\n".toList.count '\n' ∧
      SameMessage ("if a:\n  b = 1\n".toList.count '\n') failure.message failure'.message := by
  have hparses : (parse "if a:\n  b = 1\n").toOption.isSome = true := by decide +kernel
  have hfails : (buildTree "while c:\nd = 2\n").toOption.isNone = true := by decide +kernel
  have herror : ((parse "while c:\nd = 2\n").map fun _ => ()).mapError (·.first)
      = .error ⟨.grammar .missingBlock, ⟨9, 10⟩⟩ := by decide +kernel
  have hlater : FailsPastFirst "while c:\nd = 2\n" := by
    intro errors fault herrors _
    have hspan : errors.first.span = ⟨9, 10⟩ := by
      rw [herrors] at herror
      exact congrArg SyntaxError.span (Except.error.inj herror)
    rw [hspan]
    decide +kernel
  have hmargin : StartsAtMargin "while c:\nd = 2\n".toList := by
    unfold StartsAtMargin
    decide +kernel
  cases hfirst : parse "if a:\n  b = 1\n" with
  | error errors => simp [hfirst, Except.toOption] at hparses
  | ok first =>
    cases hfailure : buildTree "while c:\nd = 2\n" with
    | ok tree => simp [hfailure, Except.toOption] at hfails
    | error failure =>
      obtain ⟨failure', hwhole⟩ := buildTree_append_error hfirst hfailure (by decide +kernel)
        (by decide +kernel) hmargin hlater
      exact ⟨failure, failure', rfl, hwhole⟩

end Scrutiny
