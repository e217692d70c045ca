/-
Modules that are read one after the other.

The tokens of one module followed by those of another are read as the lines of the
first and then the lines of the second, whatever the places of the tokens.  The first
module was read by itself to its end, and its run is followed line by line
(`lines_followed`); from there on the run over the second keeps pace with reading it
alone.  Nothing is expected beyond the first module while it is read, so where the
second does not fit the grammar the whole fails at the same token.
-/
import Mathlib.Data.List.Forall2
import Scrutiny.Proofs.Grammar.LineLockstep

namespace Scrutiny

variable {c last : Cursor} {n : Nat}

namespace Parser

variable {α β : Type}

/-! ### Reading the first part -/

/-- What repetition has still to read after some turns. -/
structure Remains (p : Parser α) (bound : List Lexeme) (c : Cursor) (as : List α)
    (bound' : List Lexeme) (mid : Cursor) : Prop where
  enough : mid.rest.length ≤ bound'.length
  reply : ∃ far ≤ mid.index, manyWithin p bound c
    = ⟨max far (manyWithin p bound' mid).far,
      (manyWithin p bound' mid).result.map fun found => (as ++ found.1, found.2)⟩

theorem Remains.refl {p : Parser α} {bound : List Lexeme}
    (h : c.rest.length ≤ bound.length) : Remains p bound c [] bound c := by
  refine ⟨h, 0, Nat.zero_le _, ?_⟩
  cases hreply : manyWithin p bound c with
  | mk far result => simp

/-- One more turn in front. -/
theorem Remains.cons {p : Parser α} {x : Lexeme} {bound bound' : List Lexeme} {c next mid : Cursor}
    {a : α} {as : List α} (hread : (p c).result = some (a, next)) (hfar : (p c).far ≤ mid.index)
    (h : Remains p bound next as bound' mid) : Remains p (x :: bound) c (a :: as) bound' mid := by
  obtain ⟨henough, far, hle, hreply⟩ := h
  refine ⟨henough, max (p c).far far, Nat.max_le.mpr ⟨hfar, hle⟩, ?_⟩
  rw [manyWithin_of_some hread, hreply]
  simp [Nat.max_assoc, Function.comp_def]

/-- A run that is read to the seam is followed there. -/
theorem lines_followed {m : Seam} {P : Pairing} {line line' : Parser α}
    {g : Recast → α → β} (hleft : m.left = [])
    (hline : Shadows P n (m.Before P 0) (m.UpTo P 0) line line' (P.Same g))
    (hend : ∀ c : Cursor, c.rest = [] → (line c).result = none) (xs ys : List Lexeme) {d : Cursor}
    (hxs : c.rest.length ≤ xs.length) (hys : d.rest.length ≤ ys.length) (hn : c.rest.length < n)
    (hupTo : m.UpTo P 0 c.rest d.rest) (hindex : d.index = c.index + P.shift) {as : List α}
    (hread : (manyWithin line xs c).result = some (as, last)) (hlast : last.rest = []) :
    ∃ bs bound mid, Remains line' ys d bs bound mid ∧ mid.rest = m.right ∧
      mid.index = d.index + c.rest.length ∧ as.map (g P.left) = bs.map (g P.right) := by
  induction hlen : c.rest.length using Nat.strongRecOn generalizing xs ys c d as with
  | ind len ih =>
  rcases hupTo.cases with hbefore | ⟨-, hc, hd⟩
  · have hsome : (line c).result ≠ none := by
      intro hnone
      rw [manyWithin_of_none hnone] at hread
      obtain ⟨rfl, rfl⟩ : [] = as ∧ c = last := by simpa using hread
      obtain ⟨-, x, xs', -, -, hrest, -⟩ := hbefore
      simp [hrest] at hlast
    obtain ⟨hfar, hbound, ⟨hx, -⟩ | ⟨a, b, next, next', hx, hy, hab, hnext, hmoved⟩⟩ :=
      hline hn hbefore hindex hsome
    · exact absurd hx hsome
    obtain ⟨k, hc, hd, hi, hpos⟩ := hmoved.read
    have hk := hpos rfl
    obtain ⟨x, xs, rfl⟩ := List.exists_cons_of_length_pos (l := xs) (by omega)
    obtain ⟨y, ys, rfl⟩ := List.exists_cons_of_length_pos (l := ys) (by omega)
    simp only [List.length_cons] at hxs hys
    rw [manyWithin_of_some hx, Option.map_eq_some_iff] at hread
    obtain ⟨⟨rest, last'⟩, hread, heq⟩ := hread
    obtain ⟨rfl, rfl⟩ : a :: rest = as ∧ last' = last := by simpa using heq
    have hindex' := hmoved.index
    obtain ⟨bs, bound, mid, hremains, hmid, hat, hbs⟩ := ih next.rest.length (by omega) xs ys
      (by omega) (by omega) (by omega) hnext hindex' hread rfl
    exact ⟨b :: bs, bound, mid, hremains.cons hy (by omega), hmid, by omega, by simp [hab, hbs]⟩
  · have hempty : c.rest = [] := hc.trans hleft
    rw [manyWithin_of_none (hend c hempty)] at hread
    obtain ⟨rfl, rfl⟩ : [] = as ∧ c = last := by simpa using hread
    exact ⟨[], ys, d, .refl hys, hd, by simp [← hlen, hempty], rfl⟩

end Parser

namespace Grammar

open Scrutiny.Parser (manyWithin)

/-- The rule for the lines of a module of `n` tokens. -/
def moduleLine (n : Nat) : Parser (List Stmt) := lineUpTo (.upTo (3 * n + 3)) (n + 1)

/-- A module is its lines, with nothing after them. -/
theorem moduleUpTo_eq {lines : List (List Stmt)}
    (h : (manyWithin (moduleLine n) c.rest c).result = some (lines, last)) :
    moduleUpTo n c = if last.rest = []
      then ⟨(manyWithin (moduleLine n) c.rest c).far, some (⟨lines.flatten⟩, last)⟩
      else ⟨max (manyWithin (moduleLine n) c.rest c).far last.index, none⟩ := by
  change (manyWithin (moduleLine n) c.rest >>= fun lines => Parser.eof >>= fun _ =>
    pure (⟨lines.flatten⟩ : Module)) c = _
  rw [Parser.bind_of_some h]
  split
  · rename_i hrest
    have heof : Parser.eof last = ⟨0, some ((), last)⟩ := by
      unfold Parser.eof
      rw [hrest]
    rw [Parser.bind_of_some (by rw [heof]), heof]
    change (⟨max _ (max 0 0), some (⟨lines.flatten⟩, last)⟩ : Reply Module) = _
    simp
  · rename_i hrest
    obtain ⟨x, xs, hxs⟩ := List.exists_cons_of_ne_nil hrest
    have heof : Parser.eof last = ⟨last.index, none⟩ := by
      unfold Parser.eof
      rw [hxs]
    rw [Parser.bind_of_none (by rw [heof]), heof]

theorem moduleLine_rejects (n : Nat) : Parser.Rejects Token.isIdle (moduleLine n) :=
  lineUpTo_rejects (ExprRules.upTo_idle (3 * n)) n

/-- How two modules read in a row compare with the second of them alone. -/
structure Joined (P : Pairing) (first : List Stmt) (alone joined : Reply Module) : Prop where
  far : max joined.far P.shift = alone.far + P.shift
  fails : alone.result = none → joined.result = none ∧ P.shift ≤ joined.far
  reads : ∀ module last, alone.result = some (module, last) → ∃ second last',
    joined.result = some (⟨first ++ second⟩, last') ∧
      module.body.map P.left.stmt = second.map P.right.stmt

section

variable {first first' second second' : List Lexeme} {P : Pairing}

/-- The lines of the first module, read with more after them. -/
theorem firstLines_followed (hfirst : Stretch 0 false first)
    (hsame : List.Forall₂ (fun x y => x.token = y.token) first first')
    (hfresh : ∀ x ∈ second'.head?, x.token.continuesStmt = false) {module : Module}
    (hread : (moduleUpTo first.length (.start first)).result = some (module, last)) :
    ∃ lines bound mid, Parser.Remains (moduleLine (first' ++ second').length) (first' ++ second')
      (.start (first' ++ second')) lines bound mid ∧ mid.rest = second' ∧
      mid.index = first.length ∧ lines.flatten.map Stmt.bare = module.body.map Stmt.bare := by
  -- Only the tokens themselves are compared, and the first stream ends at the seam.
  let m : Seam := ⟨[], second', by simp, hfresh⟩
  let P : Pairing := .moved (fun _ => 0) (fun _ => 0) 0
  have halike : List.Forall₂ P.Alike first first' := hsame.imp fun _ _ h => ⟨congrArg _ h, rfl⟩
  have hlength : first.length ≤ (first' ++ second').length := by
    rw [List.length_append, hsame.length_eq]
    exact Nat.le_add_right _ _
  obtain ⟨lines, end', hlines⟩ :=
    Parser.manyWithin_succeeds (moduleLine first.length) first (.start first)
  have hmodule := moduleUpTo_eq (c := .start first) hlines
  have hend : end'.rest = [] := by
    by_contra hne
    rw [hmodule, if_neg hne] at hread
    simp at hread
  have hshadows : Parser.Shadows P (first.length + 1) (m.Before P 0) (m.UpTo P 0)
      (moduleLine first.length) (moduleLine (first' ++ second').length)
      (P.Same fun m => List.map m.stmt) :=
    lineUpTo_shadows .moved
      (fun depth => ExprRules.upTo_paired Seam.before_inline _ (by omega) (by omega))
      (ExprRules.upTo_idle _) rfl (Nat.le_refl _) hlength
  obtain ⟨found, bound, mid, hremains, hmid, hat, hfound⟩ := Parser.lines_followed rfl hshadows
    (fun c hc => by rw [moduleLine_rejects _ (by simp [Cursor.Faces, hc])]) first
    (first' ++ second')
    (c := .start first) (d := .start (first' ++ second')) (Nat.le_refl _) (Nat.le_refl _)
    (Nat.lt_succ_self _) ⟨false, first, first', by simp [Cursor.start, m], rfl, halike, hfirst⟩ rfl
    hlines hend
  refine ⟨found, bound, mid, hremains, hmid, by simpa [Cursor.start] using hat, ?_⟩
  rw [hmodule, if_pos hend] at hread
  obtain ⟨rfl, -⟩ : (⟨lines.flatten⟩ : Module) = module ∧ end' = last := by simpa using hread
  simp only [List.map_flatten, Stmt.bare]
  exact congrArg List.flatten hfound.symm

/-- The lines of the second module keep pace with reading it alone. -/
theorem moduleLine_lockstep (hP : P.Literal) {k : Nat} (hk : k ≤ n) {m : Seam} (hleft : m.left = [])
    (hright : m.right = []) :
    Parser.Lockstep P (k + 1) true (m.UpTo P 0) (m.UpTo P 0) (moduleLine k) (moduleLine n)
      (P.Same fun m => List.map m.stmt) := by
  have hpaced := suiteUpTo_paced_of_le (m := m) hP (fun depth =>
    ExprRules.upTo_paired Seam.before_inline (k + 1) (show _ ≤ 3 * k + 3 by omega)
      (show _ ≤ 3 * n + 3 by omega)) (Nat.le_refl _) hk
  have hline : Parser.Lockstep P (k + 1) true (m.Before P 0) (m.UpTo P 0) (moduleLine k)
      (moduleLine n) (P.Same fun m => List.map m.stmt) :=
    line_lockstep hpaced (fun _ _ h => h) (definition_last hpaced hleft hright)
  exact hline.upTo (moduleLine_rejects _) (moduleLine_rejects _) (by simp [hleft])
    (by simp [hright])

/-- Two modules in a row are read as the first and then as the second. -/
theorem moduleUpTo_joined (hP : P.Literal) (hshift : P.shift = first.length)
    (hfirst : Stretch 0 false first) (hsecond : Stretch 0 false second)
    (hsame : List.Forall₂ (fun x y => x.token = y.token) first first')
    (halike : List.Forall₂ P.Alike second second')
    (hfresh : ∀ x ∈ second.head?, x.token.continuesStmt = false) {module : Module}
    (hread : (moduleUpTo first.length (.start first)).result = some (module, last)) :
    ∃ stmts : List Stmt, stmts.map Stmt.bare = module.body.map Stmt.bare ∧
      Joined P stmts (moduleUpTo second.length (.start second))
        (moduleUpTo (first' ++ second').length (.start (first' ++ second'))) := by
  have hfresh' : ∀ x ∈ second'.head?, x.token.continuesStmt = false := by
    cases halike with
    | nil => simp
    | cons hx _ => simpa [← hP.token_eq hx] using hfresh
  obtain ⟨lines, bound, mid, ⟨henough, far, hfar, hreply⟩, hmid, hat, hbare⟩ :=
    firstLines_followed hfirst hsame hfresh' hread
  let m : Seam := ⟨[], [], by simp, by simp⟩
  have hlength : second.length ≤ (first' ++ second').length := by
    rw [List.length_append, halike.length_eq]
    exact Nat.le_add_left _ _
  obtain ⟨hfars, -, ⟨hx, -⟩ | ⟨as, bs, next, next', hx, hy, hab, hupTo, hmoved⟩⟩ :=
    (moduleLine_lockstep (m := m) hP hlength rfl rfl).manyWithin second bound
      (c := .start second) (d := mid) (Nat.le_refl _) henough (Nat.lt_succ_self _)
      ⟨false, second, second', by simp [Cursor.start, m], by simp [hmid, m], halike, hsecond⟩
      (by simp [hat, hshift, Cursor.start])
  · obtain ⟨_, _, heq⟩ :=
      Parser.manyWithin_succeeds (moduleLine second.length) second (.start second)
    simp [heq] at hx
  have hjoined : (manyWithin (moduleLine (first' ++ second').length) (first' ++ second')
      (.start (first' ++ second'))).result = some (lines ++ bs, next') := by
    rw [hreply, hy]
    rfl
  have hindex := hmoved.index
  have hends : next.rest = [] ↔ next'.rest = [] := by
    obtain ⟨line, shared, shared', hxs, hys, hshared, -⟩ := hupTo
    rw [hxs, hys, List.append_eq_nil_iff, List.append_eq_nil_iff, ← List.length_eq_zero_iff,
      ← List.length_eq_zero_iff (l := shared'), hshared.length_eq]
  refine ⟨lines.flatten, hbare, ?_⟩
  rw [moduleUpTo_eq (c := .start second) hx, moduleUpTo_eq (c := .start _) hjoined]
  simp only [Cursor.start] at hfars hreply ⊢
  rw [hreply]
  by_cases hrest : next.rest = []
  · rw [if_pos hrest, if_pos (hends.mp hrest)]
    refine ⟨by simp only; omega, by simp, fun found last' hfound => ?_⟩
    obtain ⟨rfl, -⟩ : (⟨as.flatten⟩ : Module) = found ∧ next = last' := by simpa using hfound
    refine ⟨bs.flatten, next', by simp, ?_⟩
    simp only [List.map_flatten]
    exact congrArg List.flatten hab
  · rw [if_neg hrest, if_neg (fun h => hrest (hends.mpr h))]
    exact ⟨by simp only; omega, fun _ => ⟨rfl, by simp only; omega⟩, by simp⟩

end

end Grammar

end Scrutiny
