/-
Line ends of either kind.

A text whose lines end with LF has the same tokens and the same logical lines when they end
with CRLF, if no string literal of it goes over a line's end (`tokenize_crlf`).

Every reader of the scan takes the same part of the two texts.  Most never take a newline and
stop at a carriage return as they do at a newline (`Kept`).  The others are the line end
itself, in a backslash's protection or not, and the search for the end of a literal, which
takes CRLF where it takes LF (`CutsAlike`).  So the pieces of the second text are those of the
first, with their line ends rewritten (`pieces_crlf`).  The layout sees no carriage return at
all: what stands before a token on its line begins behind a newline, and lines are counted by
their newlines.
-/
import Scrutiny.Proofs.Token.Boundaries
import Scrutiny.Proofs.Token.Resemblance

namespace Scrutiny

variable {c : Char} {kind : PieceKind} {n : Nat}

/-- A text with every LF written as CRLF. -/
def crlf (cs : List Char) : List Char :=
  cs.flatMap fun c => if c = '\n' then ['\r', '\n'] else [c]

@[simp] theorem crlf_nil : crlf [] = [] := rfl

@[simp] theorem crlf_newline (cs : List Char) : crlf ('\n' :: cs) = '\r' :: '\n' :: crlf cs := rfl

theorem crlf_cons (hc : c ≠ '\n') (cs : List Char) : crlf (c :: cs) = c :: crlf cs := by
  simp [crlf, hc]

theorem crlf_append (a b : List Char) : crlf (a ++ b) = crlf a ++ crlf b := List.flatMap_append

variable {cs : List Char}

theorem crlf_eq_self (h : '\n' ∉ cs) : crlf cs = cs := by
  induction cs with
  | nil => rfl
  | cons c cs ih =>
    rw [List.mem_cons, not_or] at h
    rw [crlf_cons (Ne.symm h.1), ih h.2]

/-! ### The same cut in both texts -/

/-- Cut behind `n` characters a text is what the other is cut behind `m` characters. -/
structure SameCut (cs : List Char) (n m : Nat) : Prop where
  take : (crlf cs).take m = crlf (cs.take n)
  drop : (crlf cs).drop m = crlf (cs.drop n)

namespace SameCut

theorem oneLine (h : '\n' ∉ cs.take n) : SameCut cs n n := by
  induction cs generalizing n with
  | nil => exact ⟨by simp, by simp⟩
  | cons c cs ih =>
    cases n with
    | zero => exact ⟨rfl, rfl⟩
    | succ n =>
      rw [List.take_succ_cons, List.mem_cons, not_or] at h
      have hc := Ne.symm h.1
      obtain ⟨htake, hdrop⟩ := ih h.2
      constructor
      · rw [crlf_cons hc, List.take_succ_cons, List.take_succ_cons, crlf_cons hc, htake]
      · rw [crlf_cons hc, List.drop_succ_cons, List.drop_succ_cons, hdrop]

theorem newline (cs : List Char) : SameCut ('\n' :: cs) 1 2 := ⟨rfl, rfl⟩

theorem add {k l m : Nat} (h : SameCut cs k l) (hmore : SameCut (cs.drop k) n m) :
    SameCut cs (k + n) (l + m) := by
  constructor
  · rw [List.take_add, h.take, h.drop, hmore.take, ← crlf_append, ← List.take_add]
  · rw [← List.drop_drop, h.drop, hmore.drop, List.drop_drop]

end SameCut

theorem rel_or {α β : Type} {R : α → β → Prop} {a a' : Option α} {b b' : Option β}
    (h : Option.Rel R a b) (h' : Option.Rel R a' b') : Option.Rel R (a.or a') (b.or b') := by
  cases h with
  | some h => exact .some h
  | none => exact h'

theorem rel_map {α β γ δ : Type} {R : α → β → Prop} {S : γ → δ → Prop} {f : α → γ} {g : β → δ}
    {a : Option α} {b : Option β} (h : Option.Rel R a b) (hfg : ∀ x y, R x y → S (f x) (g y)) :
    Option.Rel S (a.map f) (b.map g) := by
  cases h with
  | some h => exact .some (hfg _ _ h)
  | none => exact .none

/-- What a reader takes of one text and of the other, if anything. -/
def CutsAlike (cs : List Char) : Option Nat → Option Nat → Prop := Option.Rel (SameCut cs)

namespace CutsAlike

theorem after {k l : Nat} {a b : Option Nat} (hcut : SameCut cs k l)
    (h : CutsAlike (cs.drop k) a b) :
    CutsAlike cs (a.map (· + k)) (b.map (· + l)) := by
  refine rel_map h fun n m hmore => ?_
  rw [Nat.add_comm n, Nat.add_comm m]
  exact hcut.add hmore

theorem cons {c : Char} (hc : c ≠ '\n') {a b : Option Nat} (h : CutsAlike cs a b) :
    CutsAlike (c :: cs) (a.map (· + 1)) (b.map (· + 1)) :=
  after (SameCut.oneLine (by simpa using hc.symm)) h

end CutsAlike

/-! ### Readers that stay in their line -/

theorem notMem_take_add {m : Nat} (hm : c ∉ cs.take m) (hn : c ∉ (cs.drop m).take n) :
    c ∉ cs.take (m + n) := by
  rw [List.take_add, List.mem_append, not_or]
  exact ⟨hm, hn⟩

theorem notMem_take_one {d : Char} (hne : d ≠ c) (cs : List Char) : c ∉ (d :: cs).take 1 := by
  simp [hne.symm]

/-- A run that line ends of either kind stop is the same in both texts. -/
theorem takeWhile_crlf {p : Char → Bool} (hreturn : p '\r' = false) (hnewline : p '\n' = false)
    (cs : List Char) :
    (crlf cs).takeWhile p = cs.takeWhile p ∧ '\n' ∉ cs.take (runLength p cs) := by
  refine ⟨?_, fun hmem => ?_⟩
  · induction cs with
    | nil => rfl
    | cons c cs ih =>
      by_cases hc : c = '\n'
      · subst hc
        simp [hreturn, hnewline]
      · rw [crlf_cons hc]
        by_cases hp : p c = true
        · simp [hp, ih]
        · simp [hp]
  · rw [take_runLength] at hmem
    rw [List.all_eq_true.mp List.all_takeWhile _ hmem] at hnewline
    cases hnewline

/-- What a reader takes of one text and of the other, if anything, in the line. -/
structure Kept (cs : List Char) (a b : Option Nat) : Prop where
  same : b = a
  oneLine : ∀ n ∈ a, '\n' ∉ cs.take n

theorem Confines.kept {p : Char → Bool} {read? : List Char → Option Nat} (h : Confines p read?)
    (hreturn : p '\r' = false) (hnewline : p '\n' = false) (cs : List Char) :
    Kept cs (read? cs) (read? (crlf cs)) where
  same := h.congr (takeWhile_crlf hreturn hnewline cs).1
  oneLine n hn hmem := by
    rw [h.mem_take hn hmem] at hnewline
    cases hnewline

/-- A line's end among the first characters is one in both texts. -/
theorem return_mem_take_crlf (h : '\n' ∈ cs.take n) : '\r' ∈ (crlf cs).take n := by
  induction cs generalizing n with
  | nil => simp at h
  | cons c cs ih =>
    cases n with
    | zero => simp at h
    | succ n =>
      by_cases hc : c = '\n'
      · subst hc
        simp
      · rw [List.take_succ_cons, List.mem_cons] at h
        rw [crlf_cons hc, List.take_succ_cons]
        exact List.mem_cons_of_mem _ (ih (h.resolve_left (Ne.symm hc)))

theorem Symbol.read?_crlf (cs : List Char) : read? (crlf cs) = read? cs := by
  have hnone {chars : List Char} (h : '\r' ∈ chars ∨ '\n' ∈ chars) : ofChars? chars = none := by
    cases hread : ofChars? chars with
    | none => rfl
    | some found =>
      rw [← ofChars?_text hread] at h
      exact (h.elim found.oneLine.1 found.oneLine.2).elim
  have htake (n : Nat) : ofChars? ((crlf cs).take n) = ofChars? (cs.take n) := by
    by_cases hline : '\n' ∈ cs.take n
    · rw [hnone (Or.inr hline), hnone (Or.inl (return_mem_take_crlf hline))]
    · rw [(SameCut.oneLine hline).take, crlf_eq_self hline]
  simp only [read?, htake]

/-! ### Line ends and gaps -/

theorem lineEndLength?_none (hreturn : c ≠ '\r') (hnewline : c ≠ '\n') (cs : List Char) :
    lineEndLength? (c :: cs) = none := by
  unfold lineEndLength?
  split <;> simp_all

theorem lineEndLength?_cutsAlike (hcs : '\r' ∉ cs) :
    CutsAlike cs (lineEndLength? cs) (lineEndLength? (crlf cs)) := by
  cases cs with
  | nil => exact .none
  | cons c cs =>
    by_cases hc : c = '\n'
    · subst hc
      exact .some (.newline cs)
    · rw [List.mem_cons, not_or] at hcs
      rw [crlf_cons hc, lineEndLength?_none (Ne.symm hcs.1) hc,
        lineEndLength?_none (Ne.symm hcs.1) hc]
      exact .none

theorem gapLength?_cutsAlike (hcs : '\r' ∉ cs) :
    CutsAlike cs (gapLength? cs) (gapLength? (crlf cs)) := by
  cases cs with
  | nil => exact .none
  | cons c cs =>
    by_cases hc : c = '\n'
    · subst hc
      exact .none
    rw [List.mem_cons, not_or] at hcs
    have hspacing := takeWhile_crlf (p := isSpacing) (by decide) (by decide) cs
    have hcomment :=
      takeWhile_crlf (p := fun d => d != '\r' && d != '\n') (by decide) (by decide) cs
    have hone : '\n' ∉ (c :: cs).take 1 := notMem_take_one hc cs
    rw [crlf_cons hc]
    simp only [gapLength?, runLength, hspacing.1, hcomment.1]
    split
    · exact .some (.oneLine (notMem_take_add hone hspacing.2))
    split
    · exact .some (.oneLine (notMem_take_add hone hcomment.2))
    split
    · exact .cons hc (lineEndLength?_cutsAlike hcs.2)
    split
    · exact .some (.oneLine hone)
    · exact .none

/-! ### String literals -/

namespace Quoted

variable {q : Char}

theorem isQuote_ne_return (h : isQuote q = true) : q ≠ '\r' := by
  rintro rfl
  simp [isQuote] at h

/-- What has no line end stands at the front of both texts or of neither. -/
theorem prefix_crlf {front : List Char} (hreturn : '\r' ∉ front) (hnewline : '\n' ∉ front)
    (cs : List Char) : front <+: crlf cs ↔ front <+: cs := by
  by_cases hline : '\n' ∈ cs.take front.length
  · refine iff_of_false (fun hfront => hreturn ?_) (fun hfront => hnewline ?_)
    · rw [List.prefix_iff_eq_take.mp hfront]
      exact return_mem_take_crlf hline
    · rw [List.prefix_iff_eq_take.mp hfront]
      exact hline
  · rw [List.prefix_iff_eq_take, List.prefix_iff_eq_take, (SameCut.oneLine hline).take,
      crlf_eq_self hline]

/-- Two quotes stand at the front of both texts or of neither. -/
theorem take_two_crlf (hq : isQuote q = true) (cs : List Char) :
    (crlf cs).take 2 = [q, q] ↔ cs.take 2 = [q, q] := by
  have hfront : [q, q] <+: crlf cs ↔ [q, q] <+: cs :=
    prefix_crlf (by simp [(isQuote_ne_return hq).symm]) (by simp [(isQuote_ne_newline hq).symm]) cs
  simpa [List.prefix_iff_eq_take, eq_comm] using hfront

/-- A search for a delimiter takes the same units of both texts, CRLF for LF. -/
theorem Finds.cutsAlike {close? : List Char → Option Nat} {delimiter forbidden : List Char}
    (h : Finds close? delimiter forbidden) (hreturn : '\r' ∉ delimiter)
    (hnewline : '\n' ∉ delimiter) (hends : '\r' ∈ forbidden ↔ '\n' ∈ forbidden) (hcs : '\r' ∉ cs) :
    CutsAlike cs (close? cs) (close? (crlf cs)) := by
  induction cs using units_induction with
  | nil =>
    rw [crlf_nil, h.empty]
    exact .none
  | alone =>
    rw [crlf_cons (by decide), crlf_nil, h.alone]
    exact .none
  | cons unit rest hunit ih =>
  have hlater := ih fun hmem => hcs (List.mem_append_right _ hmem)
  have hfront := prefix_crlf hreturn hnewline (unit ++ rest)
  by_cases hat : delimiter <+: unit ++ rest
  · obtain ⟨more, hmore⟩ := hat
    rw [← hmore, crlf_append, crlf_eq_self hnewline, h.found, h.found]
    exact .some (.oneLine (by simpa using hnewline))
  have hat' := mt hfront.mp hat
  by_cases hhead : ∀ c ∈ unit.head?, c ∉ forbidden
  · rw [h.passed unit rest hunit hat hhead]
    cases hunit with
    | ending => simp at hcs
    | @escape c _ hc =>
      have hreturn' : c ≠ '\r' := by
        rintro rfl
        simp at hcs
      simp only [List.cons_append, List.nil_append] at hat' ⊢
      rw [crlf_cons (by decide)] at hat' ⊢
      by_cases hline : c = '\n'
      · subst hline
        rw [crlf_newline] at hat' ⊢
        have hstep : close? ('\\' :: '\r' :: '\n' :: crlf rest)
            = (close? (crlf rest)).map (· + 3) :=
          h.passed ['\\', '\r', '\n'] _ (.ending _) hat' hhead
        rw [hstep]
        exact hlater.after (k := 2) (l := 3) ⟨rfl, rfl⟩
      · rw [crlf_cons hline] at hat' ⊢
        have hstep : close? ('\\' :: c :: crlf rest) = (close? (crlf rest)).map (· + 2) :=
          h.passed ['\\', c] _ (.escape fun heq => absurd heq hreturn') hat' hhead
        rw [hstep]
        exact hlater.after (k := 2) (l := 2) (.oneLine (by simp [Ne.symm hline]))
    | @plain c _ hc =>
      simp only [List.cons_append, List.nil_append] at hat' ⊢
      by_cases hline : c = '\n'
      · -- The two characters of the line end are passed over one by one.
        subst hline
        have hallowed : '\n' ∉ forbidden := hhead '\n' rfl
        have hback : ¬ delimiter <+: '\n' :: crlf rest := by
          rintro ⟨more, hmore⟩
          cases delimiter with
          | nil => exact hat (List.nil_prefix)
          | cons d delimiter => exact hnewline (by simp [(List.cons.inj hmore).1])
        rw [crlf_newline] at hat' ⊢
        have hfirst : close? ('\r' :: '\n' :: crlf rest)
            = (close? ('\n' :: crlf rest)).map (· + 1) :=
          h.passed ['\r'] _ (.plain (by decide)) hat' (by simpa using mt hends.mp hallowed)
        have hsecond : close? ('\n' :: crlf rest) = (close? (crlf rest)).map (· + 1) :=
          h.passed ['\n'] _ (.plain (by decide)) hback (by simpa using hallowed)
        rw [hfirst, hsecond, Option.map_map]
        exact hlater.after (k := 1) (l := 2) (.newline rest)
      · rw [crlf_cons hline] at hat' ⊢
        have hstep : close? (c :: crlf rest) = (close? (crlf rest)).map (· + 1) :=
          h.passed [c] _ (.plain hc) hat' hhead
        rw [hstep]
        exact hlater.cons hline
  · obtain ⟨c, hc, hforbidden⟩ : ∃ c ∈ unit.head?, c ∈ forbidden := by simpa using hhead
    obtain ⟨more, rfl⟩ : ∃ more, unit = c :: more := by
      cases unit with
      | nil => cases hc
      | cons d more => exact ⟨more, by simpa using hc⟩
    rw [List.cons_append, h.broken c _ hforbidden]
    by_cases hline : c = '\n'
    · rw [hline, crlf_newline, h.broken _ _ (hends.mpr (hline ▸ hforbidden))]
      exact .none
    · rw [crlf_cons hline, h.broken c _ hforbidden]
      exact .none

theorem closeOne?_cutsAlike (hq : isQuote q = true) (hcs : '\r' ∉ cs) :
    CutsAlike cs (closeOne? q cs) (closeOne? q (crlf cs)) :=
  (closeOne?_finds hq).cutsAlike (by simp [(isQuote_ne_return hq).symm])
    (by simp [(isQuote_ne_newline hq).symm]) (by simp) hcs

theorem closeThree?_cutsAlike (hq : isQuote q = true) (hcs : '\r' ∉ cs) :
    CutsAlike cs (closeThree? q cs) (closeThree? q (crlf cs)) :=
  (closeThree?_finds hq).cutsAlike (by simp [(isQuote_ne_return hq).symm])
    (by simp [(isQuote_ne_newline hq).symm]) (by simp) hcs

theorem unmarkedLength?_cutsAlike (hcs : '\r' ∉ cs) :
    CutsAlike cs (unmarkedLength? cs) (unmarkedLength? (crlf cs)) := by
  cases cs with
  | nil => exact .none
  | cons q cs =>
    by_cases hquote : isQuote q = true
    · have hq := isQuote_ne_newline hquote
      rw [List.mem_cons, not_or] at hcs
      rw [crlf_cons hq]
      simp only [unmarkedLength?, hquote, if_true, Option.orElse_eq_or, take_two_crlf hquote]
      refine rel_or ?_ (CutsAlike.cons hq (closeOne?_cutsAlike hquote hcs.2))
      split
      · rename_i htake
        have htwo : '\n' ∉ cs.take 2 := by simp [htake, Ne.symm hq]
        have hthree : '\n' ∉ (q :: cs).take 3 := by simp [htake, Ne.symm hq]
        have hdrop : '\r' ∉ cs.drop 2 := fun hmem => hcs.2 (List.mem_of_mem_drop hmem)
        rw [(SameCut.oneLine htwo).drop]
        exact CutsAlike.after (.oneLine hthree) (closeThree?_cutsAlike hquote hdrop)
      · exact .none
    · by_cases hc : q = '\n'
      · subst hc
        exact .none
      · rw [crlf_cons hc]
        simp only [unmarkedLength?, hquote]
        exact .none

theorem length?_cutsAlike (hcs : '\r' ∉ cs) : CutsAlike cs (length? cs) (length? (crlf cs)) := by
  have hrun := takeWhile_crlf (p := isMarkLetter) (by decide) (by decide) cs
  have hletters : runLength isMarkLetter ((crlf cs).take 2) = runLength isMarkLetter (cs.take 2) ∧
      '\n' ∉ cs.take (runLength isMarkLetter (cs.take 2)) := by
    rw [runLength_take, runLength_take]
    refine ⟨by rw [runLength, hrun.1, runLength], fun hmem => hrun.2 ?_⟩
    rw [← List.take_take] at hmem
    exact List.mem_of_mem_take hmem
  have hdrop : '\r' ∉ cs.drop (runLength isMarkLetter (cs.take 2)) :=
    fun hmem => hcs (List.mem_of_mem_drop hmem)
  have hcut := SameCut.oneLine hletters.2
  unfold length?
  simp only [hletters.1, hcut.drop]
  exact .after hcut (unmarkedLength?_cutsAlike hdrop)

end Quoted

/-! ### Pieces -/

/-- A token with the line ends of its text rewritten, which only a literal can have. -/
def Token.crlf : Token → Token
  | .string text => .string (String.ofList (Scrutiny.crlf text.toList))
  | t => t

def PieceKind.crlf : PieceKind → PieceKind
  | .token t => .token t.crlf
  | kind => kind

theorem PieceKind.crlf_ne_fault (h : kind ≠ .fault) : kind.crlf ≠ .fault := by
  cases kind with
  | fault => exact absurd rfl h
  | gap | token => simp [PieceKind.crlf]

def Piece.crlf (p : Piece) : Piece := ⟨p.kind.crlf, Scrutiny.crlf p.chars⟩

theorem Token.crlf_ofWord (word : List Char) : (Token.ofWord word).crlf = .ofWord word := by
  unfold Token.ofWord
  split
  · rfl
  · rfl

/-- What is read in one text and in the other, if anything. -/
def ReadsAlike (cs : List Char) : Option (Token × Nat) → Option (Token × Nat) → Prop :=
  Option.Rel fun found other => SameCut cs found.2 other.2 ∧ other.1 = found.1.crlf

theorem Kept.readsAlike {a b : Option Nat} (h : Kept cs a b) {f : List Char → Token}
    (hf : ∀ text, (f text).crlf = f text) :
    ReadsAlike cs (a.map fun n => (f (cs.take n), n))
      (b.map fun n => (f ((crlf cs).take n), n)) := by
  obtain rfl := h.same
  cases b with
  | none => exact .none
  | some n =>
    have hline := h.oneLine n rfl
    have hcut := SameCut.oneLine hline
    exact .some ⟨hcut, by simp only [hcut.take, crlf_eq_self hline, hf]⟩

theorem readToken?_readsAlike (hcs : '\r' ∉ cs) :
    ReadsAlike cs (readToken? cs) (readToken? (crlf cs)) := by
  simp only [readToken?, Option.orElse_eq_orElse, Option.orElse_eq_or]
  refine rel_or (rel_map (lineEndLength?_cutsAlike hcs) fun n m hcut => ⟨hcut, rfl⟩) ?_
  refine rel_or (rel_map (Quoted.length?_cutsAlike hcs) fun n m hcut => ⟨hcut, ?_⟩) ?_
  · simp only [Token.crlf, String.toList_ofList, hcut.take]
  refine rel_or
    ((wordLength?_confines.kept (by decide) (by decide) cs).readsAlike Token.crlf_ofWord) ?_
  refine rel_or ((Numeral.length?_confines.kept (by decide) (by decide) cs).readsAlike
    (f := fun text => .number (.ofList text)) fun _ => rfl) ?_
  rw [Symbol.read?_crlf]
  cases hread : Symbol.read? cs with
  | none => exact .none
  | some found =>
    refine .some ⟨.oneLine ?_, rfl⟩
    rw [← (Symbol.read?_text hread).2]
    exact found.1.oneLine.2

theorem readPiece_crlf (hcs : '\r' ∉ cs) (hread : readPiece cs = (kind, n))
    (hkind : kind ≠ .fault) : ∃ m, readPiece (crlf cs) = (kind.crlf, m) ∧ SameCut cs n m := by
  have hgaps := gapLength?_cutsAlike hcs
  have htokens := readToken?_readsAlike hcs
  unfold readPiece at hread ⊢
  generalize gapLength? cs = gap at hgaps hread
  generalize gapLength? (crlf cs) = gap' at hgaps ⊢
  cases hgaps with
  | some hcut =>
    cases hread
    exact ⟨_, rfl, hcut⟩
  | none =>
    generalize readToken? cs = token at htokens hread
    generalize readToken? (crlf cs) = token' at htokens ⊢
    cases htokens with
    | @some found other hsame =>
      cases hread
      simp only [hsame.2]
      exact ⟨_, rfl, hsame.1⟩
    | none =>
      cases hread
      exact absurd rfl hkind

/-- The first piece, if it could be read. -/
theorem pieces_of_pos (hne : cs ≠ []) (hn : 0 < n)
    (hread : readPiece cs = (kind, n)) : pieces cs = ⟨kind, cs.take n⟩ :: pieces (cs.drop n) := by
  obtain ⟨c, rest, rfl⟩ := List.exists_cons_of_ne_nil hne
  obtain ⟨m, rfl⟩ : ∃ m, n = m + 1 := ⟨n - 1, by omega⟩
  rw [pieces_cons, hread]
  rfl

theorem readPiece_pos (hread : readPiece cs = (kind, n)) (hkind : kind ≠ .fault) : 0 < n := by
  cases kind with
  | fault => exact absurd rfl hkind
  | gap => exact (gapLength?_cases (gapLength?_of_readPiece hread)).1
  | token t => exact (readPiece_token hread).1

theorem crlf_eq_nil : crlf cs = [] ↔ cs = [] := by
  refine ⟨fun h => ?_, ?_⟩
  · cases cs with
    | nil => rfl
    | cons c cs =>
      by_cases hc : c = '\n'
      · simp [hc] at h
      · simp [crlf_cons hc] at h
  · rintro rfl
    rfl

/-- **The pieces of the two texts are the same**, but for the line ends in them. -/
theorem pieces_crlf (hcs : '\r' ∉ cs) (hclean : ∀ p ∈ pieces cs, p.kind ≠ .fault) :
    pieces (crlf cs) = (pieces cs).map Piece.crlf := by
  induction cs using pieces.induct with
  | case1 => simp [pieces]
  | case2 c rest kind n hread ih =>
    have hkind : kind ≠ .fault := by
      rw [pieces_cons, hread] at hclean
      exact hclean _ List.mem_cons_self
    have hn := readPiece_pos hread hkind
    obtain ⟨k, rfl⟩ : ∃ k, n = k + 1 := ⟨n - 1, by omega⟩
    obtain ⟨m, hother, hcut⟩ := readPiece_crlf hcs hread hkind
    have hm : 0 < m := by
      refine Nat.pos_of_ne_zero fun hzero => ?_
      have htake := hcut.take
      rw [hzero, List.take_zero, eq_comm, crlf_eq_nil] at htake
      simp at htake
    rw [pieces_of_pos (List.cons_ne_nil c rest) hn hread] at hclean ⊢
    rw [List.forall_mem_cons] at hclean
    have hrest : '\r' ∉ (c :: rest).drop (k + 1) := fun hmem => hcs (List.mem_of_mem_drop hmem)
    rw [pieces_of_pos (mt crlf_eq_nil.mp (List.cons_ne_nil c rest)) hm hother, hcut.take, hcut.drop,
      List.map_cons]
    exact congrArg _ (ih hrest hclean.2)

/-! ### Places -/

/-- The line in progress has no line end, so it is the same. -/
theorem takeWhile_reverse_crlf (cs : List Char) :
    (crlf cs).reverse.takeWhile (· != '\n') = cs.reverse.takeWhile (· != '\n') := by
  induction cs using List.reverseRecOn with
  | nil => rfl
  | append_singleton cs c ih =>
    by_cases hc : c = '\n'
    · subst hc
      simp [crlf_append]
    · rw [crlf_append, crlf_cons hc, crlf_nil]
      simp [hc, ih]

theorem count_newline_crlf (cs : List Char) : (crlf cs).count '\n' = cs.count '\n' := by
  induction cs with
  | nil => rfl
  | cons c cs ih =>
    by_cases hc : c = '\n'
    · subst hc
      simp [ih]
    · simp [crlf_cons hc, List.count_cons, ih]

theorem lineHead_append (before after : List Char) : lineHead (before ++ after) (byteLength before)
      = (before.reverse.takeWhile (· != '\n')).reverse := by
  rw [lineHead, splitAtByte?_append]

theorem Lexeme.resembles_crlf (before after : List Char) (t : Token) (stop stop' : Nat) :
    Lexeme.Resembles (before ++ after) (crlf (before ++ after)) id ⟨t, ⟨byteLength before, stop⟩⟩
      ⟨t, ⟨byteLength (crlf before), stop'⟩⟩ where
  token := rfl
  head := by rw [crlf_append, lineHead_append, lineHead_append, takeWhile_reverse_crlf]
  line := by
    rw [crlf_append, LineTable.line_between, LineTable.line_between, count_newline_crlf]
    rfl

/-- The tokens of the two texts, in their places. -/
theorem lexemesFrom_crlf (before : List Char) (ps : List Piece)
    (hcs : before ++ ps.flatMap Piece.chars = cs)
    (hkept : ∀ lexeme ∈ lexemesFrom (byteLength before) ps, lexeme.token.crlf = lexeme.token) :
    List.Forall₂ (Lexeme.Resembles cs (crlf cs) id) (lexemesFrom (byteLength before) ps)
      (lexemesFrom (byteLength (crlf before)) (ps.map Piece.crlf)) := by
  induction ps generalizing before with
  | nil => exact .nil
  | cons p ps ih =>
    obtain ⟨kind, chars⟩ := p
    have hnext : before ++ chars ++ ps.flatMap Piece.chars = cs := by simpa using hcs
    have hlater := ih (before ++ chars) hnext
    rw [crlf_append, byteLength_append, byteLength_append] at hlater
    cases kind with
    | token t =>
      simp only [lexemesFrom, List.forall_mem_cons] at hkept
      simp only [List.map_cons, Piece.crlf, PieceKind.crlf, lexemesFrom, hkept.1]
      refine .cons ?_ (hlater hkept.2)
      rw [← hcs]
      exact Lexeme.resembles_crlf before _ t _ _
    | gap | fault => exact hlater hkept

/-! ### Token streams -/

theorem Token.crlf_eq_self {t : Token} (h : ∀ text, t = .string text → '\n' ∉ text.toList) :
    t.crlf = t := by
  cases t with
  | string text => rw [Token.crlf, Scrutiny.crlf_eq_self (h text rfl), String.ofList_toList]
  | _ => rfl

/-- **With CRLF for LF a text has the same tokens and the same logical lines**, if no literal
goes over the end of a line. -/
theorem tokenize_crlf {source : String} {stream : TokenStream} (h : tokenize source = .ok stream)
    (hreturn : '\r' ∉ source.toList)
    (hstrings : ∀ lexeme ∈ stream.tokens, ∀ text, lexeme.token = .string text →
      '\n' ∉ text.toList) : ∃ again, tokenize (String.ofList (crlf source.toList)) = .ok again ∧
      again.tokens.map Lexeme.token = stream.tokens.map Lexeme.token ∧
      again.lines = stream.lines := by
  obtain ⟨lexemes, hscan, -⟩ := tokenize_run h
  obtain ⟨hfaults, rfl⟩ := scan_pieces hscan
  have hclean := faultsFrom_eq_nil hfaults
  have hkept : ∀ lexeme ∈ lexemesFrom 0 (pieces source.toList),
      lexeme.token.crlf = lexeme.token := by
    intro lexeme hlexeme
    by_cases hnewline : lexeme.token = .newline
    · rw [hnewline]
      rfl
    · exact Token.crlf_eq_self (hstrings lexeme (tokenize_keeps h hlexeme hnewline))
  have hpieces := pieces_crlf hreturn hclean
  have hcut : Cut 0 (crlf source.toList)
      (lexemesFrom 0 ((pieces source.toList).map Piece.crlf)) := by
    refine ⟨by rw [hpieces], faultsFrom_of_clean ?_ 0⟩
    rw [hpieces, List.forall_mem_map]
    exact fun p hp => PieceKind.crlf_ne_fault (hclean p hp)
  have hsame := lexemesFrom_crlf [] (pieces source.toList) (pieces_chars source.toList) hkept
  obtain ⟨again, hagain, htokens, hlines⟩ := tokenize_resembles h hscan
    (by rw [String.toList_ofList]; exact hcut.scan)
    (by rw [String.toList_ofList]; exact .of_forall₂ hsame)
  refine ⟨again, hagain, htokens, ?_⟩
  rw [hlines]
  exact List.map_id _

/-- A comment, a blank line and a protected line end. -/
theorem tokenize_crlf_block : ∃ again,
    tokenize "if x:  # 'a\r\n\r\n\ty = 'b' + \\\r\nz\r\n" = .ok again ∧
    again.tokens.map Lexeme.token = [.keyword .if_, .name "x", .symbol .colon, .newline, .indent,
      .name "y", .symbol .assign, .string "'b'", .symbol .plus, .name "z", .newline, .dedent] ∧
    again.lines = [⟨1, "", true⟩, ⟨3, "\t", false⟩] := by
  have hlines : (tokenize "if x:  # 'a\n\n\ty = 'b' + \\\nz\n").toOption.map TokenStream.lines
      = some [⟨1, "", true⟩, ⟨3, "\t", false⟩] := by decide +kernel
  have htokens : (tokenize "if x:  # 'a\n\n\ty = 'b' + \\\nz\n").toOption.map
      (fun stream => stream.tokens.map Lexeme.token)
      = some [.keyword .if_, .name "x", .symbol .colon, .newline, .indent, .name "y",
        .symbol .assign, .string "'b'", .symbol .plus, .name "z", .newline, .dedent] := by
    decide +kernel
  cases h : tokenize "if x:  # 'a\n\n\ty = 'b' + \\\nz\n" with
  | error errors =>
    rw [h] at hlines
    cases hlines
  | ok stream =>
    rw [h] at hlines htokens
    have hall : stream.tokens.map Lexeme.token = _ := Option.some.inj htokens
    obtain ⟨again, hagain, hsame, hagainLines⟩ := tokenize_crlf h (by decide +kernel) (by
      intro lexeme hlexeme text hstring
      have hmem := List.mem_map_of_mem (f := Lexeme.token) hlexeme
      rw [hall, hstring] at hmem
      obtain rfl : text = "'b'" := by simpa using hmem
      decide)
    exact ⟨again, hagain, hsame.trans hall, hagainLines.trans (Option.some.inj hlines)⟩

end Scrutiny
