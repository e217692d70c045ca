/-
A scanned text is its tokens and the gaps between them.

`Scans offset text lexemes` says that a text which begins at `offset` is cut,
without a fault, into gaps and the given tokens, each in its place.  A scan that
succeeds is such a cut (`scan_scans`), and everything else about the scan is read
off the cut by induction: where the tokens stand and how they are written, that
they are in order, and that what no token covers is a gap.
-/
import Scrutiny.Proofs.Text
import Scrutiny.Proofs.Token.Reading

namespace Scrutiny

variable {cs : List Char} {lexeme : Lexeme} {lexemes : List Lexeme} {n offset : Nat} {t : Token}

/-- A text from byte `offset` on, cut into gaps and the given tokens. -/
inductive Scans : Nat → List Char → List Lexeme → Prop
  | done {offset : Nat} : Scans offset [] []
  | gap {offset : Nat} {text rest : List Char} {lexemes : List Lexeme} (hgap : Gap text rest)
      (hrest : Scans (offset + byteLength text) rest lexemes) :
      Scans offset (text ++ rest) lexemes
  | token {offset : Nat} {t : Token} {text rest : List Char} {lexemes : List Lexeme}
      (hwritten : t.WrittenAs text)
      (hrest : Scans (offset + byteLength text) rest lexemes) :
      Scans offset (text ++ rest) (⟨t, ⟨offset, offset + byteLength text⟩⟩ :: lexemes)

/-! ### A scan without a fault is a cut -/

theorem gapLength?_of_readPiece (h : readPiece cs = (.gap, n)) : gapLength? cs = some n := by
  unfold readPiece at h
  split at h
  · rename_i m hm
    rw [hm, (Prod.mk.inj h).2]
  · split at h <;> simp at h

/-- What a gap at the front is, if no fault follows it. -/
theorem readPiece_gap (h : readPiece cs = (.gap, n))
    (hafter : ∀ p ∈ pieces (cs.drop n), p.kind ≠ .fault) : Gap (cs.take n) (cs.drop n) := by
  obtain ⟨-, hgap | ⟨body, htake, hbody, hhead⟩⟩ := gapLength?_cases (gapLength?_of_readPiece h)
  · exact hgap
  rw [htake]
  refine Gap.comment hbody ?_
  -- What follows a comment begins with a line ending, for all else would be a fault.
  cases hdrop : cs.drop n with
  | nil => exact Or.inl rfl
  | cons c rest =>
    rw [hdrop] at hhead hafter
    rcases hhead c rfl with rfl | rfl
    · by_cases hrest : rest.head? = some '\n'
      · obtain ⟨rest', rfl⟩ : ∃ rest', rest = '\n' :: rest' := by
          cases rest with
          | nil => simp at hrest
          | cons d rest' => exact ⟨rest', by simpa using hrest⟩
        exact Or.inr ⟨['\r', '\n'], rest', Or.inr rfl, rfl⟩
      · have hfault := readPiece_bare_return hrest
        rw [pieces] at hafter
        rcases hread : readPiece ('\r' :: rest) with ⟨kind, m⟩
        rw [hread] at hafter hfault
        exact absurd hfault (hafter _ List.mem_cons_self)
    · exact Or.inr ⟨['\n'], rest, Or.inl rfl, rfl⟩

theorem readToken?_of_readPiece
    (h : readPiece cs = (.token t, n)) : readToken? cs = some (t, n) := by
  unfold readPiece at h
  split at h
  · simp at h
  · split at h
    · rename_i found hfound
      obtain ⟨hkind, hn⟩ := Prod.mk.inj h
      cases hkind
      rw [hfound, hn]
    · simp at h

theorem readPiece_token (h : readPiece cs = (.token t, n)) : 0 < n ∧ t.WrittenAs (cs.take n) :=
  readToken?_writtenAs (readToken?_of_readPiece h)

/-- No piece is empty. -/
theorem pieces_nonempty (cs : List Char) : ∀ p ∈ pieces cs, p.chars ≠ [] := by
  fun_induction pieces cs with
  | case1 => simp
  | case2 c rest kind n _ ih => simpa using ih

/-- A piece that is no fault was read somewhere. -/
theorem readPiece_of_mem_pieces {p : Piece} (h : p ∈ pieces cs)
    (hkind : p.kind ≠ .fault) :
    ∃ ahead n, readPiece ahead = (p.kind, n) ∧ p.chars = ahead.take n := by
  induction cs using pieces.induct with
  | case1 => simp [pieces] at h
  | case2 c rest kind n hread ih =>
    rw [pieces, hread] at h
    rcases List.mem_cons.mp h with rfl | h
    · have hpos : 0 < n := by
        cases kind with
        | fault => exact absurd rfl hkind
        | gap => exact (gapLength?_cases (gapLength?_of_readPiece hread)).1
        | token t => exact (readPiece_token hread).1
      obtain ⟨m, rfl⟩ : ∃ m, n = m + 1 := ⟨n - 1, by omega⟩
      exact ⟨c :: rest, m + 1, hread, rfl⟩
    · exact ih h

/-- A token among the pieces was read somewhere. -/
theorem readToken?_of_mem_pieces {chars : List Char} (h : (⟨.token t, chars⟩ : Piece) ∈ pieces cs) :
    ∃ ahead n, readToken? ahead = some (t, n) ∧ chars = ahead.take n := by
  obtain ⟨ahead, n, hread, hchars⟩ := readPiece_of_mem_pieces h (by simp)
  exact ⟨ahead, n, readToken?_of_readPiece hread, hchars⟩

/-- Pieces without a fault cut their text. -/
theorem scans_of_pieces (cs : List Char) (hpieces : ∀ p ∈ pieces cs, p.kind ≠ .fault)
    (offset : Nat) : Scans offset cs (lexemesFrom offset (pieces cs)) := by
  induction cs using pieces.induct generalizing offset with
  | case1 => simpa [pieces, lexemesFrom] using Scans.done
  | case2 c rest kind n hread ih =>
    rw [pieces, hread] at hpieces ⊢
    simp only [List.mem_cons, forall_eq_or_imp] at hpieces
    obtain ⟨hkind, hlater⟩ := hpieces
    have hrest := ih hlater
    -- The piece is what the reading takes, since a reading takes something.
    have hcut : 0 < n → c :: rest.take (n - 1) = (c :: rest).take n ∧
        rest.drop (n - 1) = (c :: rest).drop n := by
      intro hpos
      obtain ⟨m, rfl⟩ : ∃ m, n = m + 1 := ⟨n - 1, by omega⟩
      exact ⟨rfl, rfl⟩
    have hwhole : c :: rest = (c :: rest.take (n - 1)) ++ rest.drop (n - 1) := by simp
    cases kind with
    | fault => exact absurd rfl hkind
    | gap =>
      have hpos : 0 < n := (gapLength?_cases (gapLength?_of_readPiece hread)).1
      obtain ⟨htake, hdrop⟩ := hcut hpos
      rw [hdrop] at hlater
      have hgap := readPiece_gap hread hlater
      rw [← htake, ← hdrop] at hgap
      simp only [lexemesFrom]
      rw [hwhole]
      exact Scans.gap hgap (hrest _)
    | token t =>
      obtain ⟨hpos, hwritten⟩ := readPiece_token hread
      obtain ⟨htake, hdrop⟩ := hcut hpos
      rw [← htake] at hwritten
      simp only [lexemesFrom]
      rw [hwhole]
      exact Scans.token hwritten (hrest _)

theorem faultsFrom_eq_nil {ps : List Piece} (h : faultsFrom offset ps = []) :
    ∀ p ∈ ps, p.kind ≠ .fault := by
  induction ps generalizing offset with
  | nil => simp
  | cons p ps ih =>
    intro q hq
    unfold faultsFrom at h
    cases hkind : p.kind with
    | fault => simp [hkind] at h
    | gap =>
      simp only [hkind] at h
      rcases List.mem_cons.mp hq with rfl | hq
      · simp [hkind]
      · exact ih h q hq
    | token t =>
      simp only [hkind] at h
      rcases List.mem_cons.mp hq with rfl | hq
      · simp [hkind]
      · exact ih h q hq

theorem faultsFrom_of_clean {ps : List Piece} (hclean : ∀ p ∈ ps, p.kind ≠ .fault) (offset : Nat) :
    faultsFrom offset ps = [] := by
  induction ps generalizing offset with
  | nil => rfl
  | cons p ps ih =>
    rw [List.forall_mem_cons] at hclean
    unfold faultsFrom
    cases hkind : p.kind with
    | fault => exact absurd hkind hclean.1
    | gap | token t => exact ih hclean.2 _

/-- A scan that succeeds has no fault and gives the tokens among the pieces. -/
theorem scan_pieces (h : scan cs = .ok lexemes) :
    faultsFrom 0 (pieces cs) = [] ∧ lexemes = lexemesFrom 0 (pieces cs) := by
  unfold scan at h
  simp only at h
  split at h
  · simp at h
  · rename_i hfaults
    cases h
    exact ⟨List.map_eq_nil_iff.mp hfaults, rfl⟩

/-- **A scan that succeeds cuts the text into gaps and its tokens.** -/
theorem scan_scans (h : scan cs = .ok lexemes) : Scans 0 cs lexemes := by
  obtain ⟨hfaults, rfl⟩ := scan_pieces h
  exact scans_of_pieces cs (faultsFrom_eq_nil hfaults) 0

/-! ### Where the tokens stand -/

/-- A token stands in a text where it is written. -/
def Lexeme.StandsIn (cs : List Char) (lexeme : Lexeme) : Prop :=
  ∃ before text after, cs = before ++ text ++ after ∧ lexeme.token.WrittenAs text ∧
    lexeme.span = ⟨byteLength before, byteLength before + byteLength text⟩

theorem Scans.place (h : Scans offset cs lexemes) :
    ∀ lexeme ∈ lexemes, ∃ before text after, cs = before ++ text ++ after ∧
      lexeme.token.WrittenAs text ∧
      lexeme.span = ⟨offset + byteLength before, offset + byteLength before + byteLength text⟩ := by
  induction h with
  | done => simp
  | @gap offset text rest lexemes hgap hrest ih =>
    intro lexeme hlexeme
    obtain ⟨before, inside, after, hcs, hwritten, hspan⟩ := ih lexeme hlexeme
    refine ⟨text ++ before, inside, after, by simp [hcs], hwritten, ?_⟩
    rw [hspan, byteLength_append, Nat.add_assoc]
  | @token offset t text rest lexemes hwritten hrest ih =>
    intro lexeme hlexeme
    rcases List.mem_cons.mp hlexeme with rfl | hlexeme
    · exact ⟨[], text, rest, by simp, hwritten, by simp⟩
    · obtain ⟨before, inside, after, hcs, hwritten, hspan⟩ := ih lexeme hlexeme
      refine ⟨text ++ before, inside, after, by simp [hcs], hwritten, ?_⟩
      rw [hspan, byteLength_append, Nat.add_assoc]

theorem Scans.standsIn (h : Scans 0 cs lexemes) : ∀ lexeme ∈ lexemes, lexeme.StandsIn cs := by
  intro lexeme hlexeme
  obtain ⟨before, text, after, hcs, hwritten, hspan⟩ := h.place lexeme hlexeme
  exact ⟨before, text, after, hcs, hwritten, by simpa using hspan⟩

theorem Lexeme.StandsIn.bounds (h : lexeme.StandsIn cs) :
    lexeme.span.start ≤ lexeme.span.stop ∧ lexeme.span.stop ≤ byteLength cs := by
  obtain ⟨before, text, after, rfl, -, hspan⟩ := h
  rw [hspan]
  simp only [byteLength_append]
  omega

/-- No token starts before the text does, or before the one ahead of it stops. -/
theorem Scans.ordered (h : Scans offset cs lexemes) :
    (∀ lexeme ∈ lexemes, offset ≤ lexeme.span.start) ∧
      lexemes.Pairwise fun a b => a.span.stop ≤ b.span.start := by
  induction h with
  | done => simp
  | gap hgap hrest ih =>
    refine ⟨fun lexeme hlexeme => ?_, ih.2⟩
    have := ih.1 lexeme hlexeme
    omega
  | token hwritten hrest ih =>
    refine ⟨fun lexeme hlexeme => ?_, List.pairwise_cons.mpr ⟨ih.1, ih.2⟩⟩
    rcases List.mem_cons.mp hlexeme with rfl | hlexeme
    · exact Nat.le_refl _
    · have := ih.1 lexeme hlexeme
      omega

/-- The layout's own marks are never scanned. -/
theorem Lexeme.StandsIn.token_ne (h : lexeme.StandsIn cs) :
    lexeme.token ≠ .indent ∧ lexeme.token ≠ .dedent := by
  obtain ⟨-, text, -, -, hwritten, -⟩ := h
  refine ⟨fun hindent => ?_, fun hdedent => ?_⟩
  · rw [hindent] at hwritten
    exact hwritten
  · rw [hdedent] at hwritten
    exact hwritten

/-- A newline stands between two lines. -/
theorem Lexeme.StandsIn.line_lt (h : lexeme.StandsIn cs) (hnewline : lexeme.token = .newline) :
    (LineTable.ofText cs).line lexeme.span.start < (LineTable.ofText cs).line lexeme.span.stop := by
  obtain ⟨before, text, after, hcs, hwritten, hspan⟩ := h
  rw [hnewline] at hwritten
  rw [hspan]
  rcases hwritten with rfl | rfl
  · exact LineTable.line_lt_of_newline [] hcs
  · exact LineTable.line_lt_of_newline ['\r'] hcs

/-- Tokens that stand in a text one after another. -/
structure Scanned (cs : List Char) (lexemes : List Lexeme) : Prop where
  stands : ∀ lexeme ∈ lexemes, lexeme.StandsIn cs
  ordered : lexemes.Pairwise fun a b => a.span.stop ≤ b.span.start

theorem scan_scanned (h : scan cs = .ok lexemes) : Scanned cs lexemes :=
  ⟨(scan_scans h).standsIn, (scan_scans h).ordered.2⟩

namespace Scanned

variable {cs : List Char} {lexemes : List Lexeme} {lexeme : Lexeme}

theorem init (h : Scanned cs (lexemes ++ [lexeme])) : Scanned cs lexemes :=
  ⟨fun other hother => h.stands other (by simp [hother]), (List.pairwise_append.mp h.ordered).1⟩

theorem last (h : Scanned cs (lexemes ++ [lexeme])) : lexeme.StandsIn cs :=
  h.stands lexeme (by simp)

theorem le_last (h : Scanned cs (lexemes ++ [lexeme])) :
    ∀ other ∈ lexemes, other.span.stop ≤ lexeme.span.start := fun other hother =>
  (List.pairwise_append.mp h.ordered).2.2 other hother lexeme (by simp)

/-- What stands before and after a token. -/
theorem split {front back : List Lexeme} (h : Scanned cs (front ++ lexeme :: back)) :
    Scanned cs front ∧ Scanned cs back ∧ (∀ other ∈ front, other.span.stop ≤ lexeme.span.start) ∧
      ∀ other ∈ back, lexeme.span.stop ≤ other.span.start := by
  obtain ⟨hfront, hrest, hbefore⟩ := List.pairwise_append.mp h.ordered
  obtain ⟨hafter, hback⟩ := List.pairwise_cons.mp hrest
  refine ⟨⟨fun other hother => ?_, hfront⟩, ⟨fun other hother => ?_, hback⟩, ?_, hafter⟩
  · exact h.stands other (by simp [hother])
  · exact h.stands other (by simp [hother])
  · exact fun other hother => hbefore other hother lexeme (by simp)

end Scanned

/-! ### What no token covers -/

/-- The byte `k` bytes into a text from `offset` on belongs to a token, or to a gap
that no token reaches into. -/
def Covered (offset : Nat) (cs : List Char) (lexemes : List Lexeme) (k : Nat) : Prop :=
  (∃ lexeme ∈ lexemes, lexeme.span.start ≤ offset + k ∧ offset + k < lexeme.span.stop) ∨
  ∃ before text after, cs = before ++ text ++ after ∧ Gap text after ∧
    byteLength before ≤ k ∧ k < byteLength before + byteLength text ∧
    ∀ lexeme ∈ lexemes, lexeme.span.stop ≤ offset + byteLength before ∨
      offset + byteLength before + byteLength text ≤ lexeme.span.start

/-- Text and tokens put in front change nothing, if the tokens stop before the rest. -/
theorem Covered.shift {k : Nat} {text rest : List Char} (earlier : List Lexeme)
    (hearlier : ∀ lexeme ∈ earlier, lexeme.span.stop ≤ offset + byteLength text)
    (h : Covered (offset + byteLength text) rest lexemes k) :
    Covered offset (text ++ rest) (earlier ++ lexemes) (byteLength text + k) := by
  rcases h with ⟨lexeme, hlexeme, hlow, hhigh⟩ |
    ⟨before, inside, after, hcs, hinside, hlow, hhigh, hfree⟩
  · exact Or.inl ⟨lexeme, List.mem_append_right _ hlexeme, by omega, by omega⟩
  · refine Or.inr ⟨text ++ before, inside, after, by simp [hcs], hinside, ?_, ?_, ?_⟩
    · rw [byteLength_append]
      omega
    · rw [byteLength_append]
      omega
    · intro lexeme hlexeme
      rw [byteLength_append]
      rcases List.mem_append.mp hlexeme with hlexeme | hlexeme
      · have := hearlier lexeme hlexeme
        omega
      · have := hfree lexeme hlexeme
        omega

/-- Every byte belongs to a token or to a gap. -/
theorem Scans.covers
    (h : Scans offset cs lexemes) : ∀ k, k < byteLength cs → Covered offset cs lexemes k := by
  induction h with
  | done => simp
  | @gap offset text rest lexemes hgap hrest ih =>
    intro k hk
    by_cases hin : k < byteLength text
    · refine Or.inr ⟨[], text, rest, by simp, hgap, by simp, by simpa using hin, ?_⟩
      intro lexeme hlexeme
      exact Or.inr (by simpa using hrest.ordered.1 lexeme hlexeme)
    · rw [byteLength_append] at hk
      obtain ⟨j, rfl⟩ : ∃ j, k = byteLength text + j := ⟨k - byteLength text, by omega⟩
      exact Covered.shift [] (by simp) (ih j (by omega))
  | @token offset t text rest lexemes hwritten hrest ih =>
    intro k hk
    by_cases hin : k < byteLength text
    · exact Or.inl ⟨_, List.mem_cons_self, Nat.le_add_right _ _, Nat.add_lt_add_left hin _⟩
    · rw [byteLength_append] at hk
      obtain ⟨j, rfl⟩ : ∃ j, k = byteLength text + j := ⟨k - byteLength text, by omega⟩
      exact Covered.shift [_] (by simp) (ih j (by omega))

end Scrutiny
