/-
Statements read on ordinary names are read again under any names.

On a stream whose names are reserved nowhere (`Ordinary`) no match statement and no type alias
is ever read.  Under other names one might be, where there was something else.  That it is not
is shown rule by rule, as success that carries over (`Carries`): an expression statement
excludes a type alias, and a line of simple statements excludes a match statement.

A compound statement ends in suites, of which the last ones are optional.  Nothing that may
come after the statement starts one of them, and this is the proviso under which it carries
over (`Cursor.Fresh`).  A line is followed by another one, by the end of its block or by the
end of the module, so for whole modules nothing is left to ask (`moduleUpTo_carries`).
-/
import Scrutiny.Proofs.Grammar.Carrying
import Scrutiny.Proofs.Grammar.LineLockstep
import Scrutiny.Proofs.Grammar.SoftWords

namespace Scrutiny

variable {K : Cursor → Prop} {c : Cursor} {kw : Keyword} {n : Nat}

/-- The words that are reserved only where a statement or clause of theirs can be read. -/
inductive SoftWord where
  | match_ | case_ | type_
deriving DecidableEq, Repr

/-- How a word is written. -/
def SoftWord.text : SoftWord → String
  | match_ => "match"
  | case_ => "case"
  | type_ => "type"

/-- The names of a stream are identifiers, and reserved nowhere. -/
structure Ordinary (s : List Lexeme) : Prop where
  identifier : ∀ lexeme ∈ s, ∀ text, lexeme.token = .name text → IsIdentifier text.toList
  unreserved : ∀ lexeme ∈ s, ∀ word : SoftWord, lexeme.token ≠ .name word.text

/-- The rules for expressions read a stream and the same under other names alike. -/
abbrev ExprRules.Renames (f : String → String) (s : List Lexeme) (r : ExprRules) : Prop :=
  r.Paired (.renamed f) (Renamed f s) (s.length + 1) r

theorem ExprRules.Renames.upTo (f : String → String) {s : List Lexeme}
    (hn : 3 * s.length ≤ n) : (ExprRules.upTo (n + 3)).Renames f s :=
  ExprRules.upTo_paired (Renamed.inline f s) _ (by omega) (by omega)

namespace Parser

variable {α : Type} {f : String → String} {s : List Lexeme}

/-- What is known of the first result may be used for what comes after. -/
theorem Lockstep.yields {p q : Parser α} {R : α → α → Prop} {A : α → Prop} {eats : Bool}
    (hp : Renames f s eats p q R) (hA : Yields s p A) :
    Renames f s eats p q fun a b => R a b ∧ A a := by
  intro c d hlength hS hindex
  obtain ⟨hfar, hbound, hnone | ⟨a, b, next, next', hx, hy, hab, hmore⟩⟩ := hp hlength hS hindex
  · exact ⟨hfar, hbound, Or.inl hnone⟩
  · obtain ⟨-, -, ha⟩ := hA hS.1 hx
    exact ⟨hfar, hbound, Or.inr ⟨a, b, next, next', hx, hy, ⟨hab, ha⟩, hmore⟩⟩

/-- A word that is not there is not read. -/
theorem word_result {text : String} (h : ∀ lexeme ∈ s, lexeme.token ≠ .name text)
    (hc : c.rest <:+ s) : (word text c).result = none := by
  by_contra hword
  obtain ⟨⟨_, next⟩, hword⟩ := Option.ne_none_iff_exists'.mp hword
  obtain ⟨x, hx, hrest⟩ := token_result hword
  exact h x (hc.mem (by simp [hrest])) hx

end Parser

namespace Grammar

open Scrutiny.Parser (Renames Carries Leads Excludes Rejects Stops Yields)

/-- Ways of building a statement that give the same under other names. -/
abbrev BuildsStmt (f : String → String) : (Span → Stmt) → (Span → Stmt) → Prop :=
  (Pairing.renamed f).Builds Recast.stmt

/-- Statements that are the same under other names. -/
@[simp] abbrev SameBlock (f : String → String) : List Stmt → List Stmt → Prop :=
  (Pairing.renamed f).Same fun m => List.map m.stmt

section

variable {f : String → String} {s : List Lexeme} {r : ExprRules}

/-! ### Simple statements -/

theorem name_undotted (hs : Ordinary s) : Yields s Parser.name fun text => '.' ∉ text.toList := by
  refine .satisfy fun lexeme hlexeme text htext => ?_
  split at htext
  · rename_i name heq
    cases htext
    exact (hs.identifier lexeme hlexeme _ heq).not_mem (by decide) (by decide)
  · simp at htext

/-- Ordinary names make dotted names that are renamed component by component. -/
theorem dotted_renamed (hs : Ordinary s) (hstar : f "*" = "*") :
    Dotted (.renamed f) (Renamed f s) (s.length + 1) := by
  have hT := Renamed.inline f s
  have hsingle {text : String} (htext : '.' ∉ text.toList) : renameDotted f text = f text := by
    simpa using renameDotted_intercalate f text [] (by simpa using htext)
  refine ⟨hT, ?_, ?_, (hsingle (by decide)).trans hstar⟩
  · exact (hT.name.yields (name_undotted hs)).imp fun a b ⟨hab, ha⟩ => (hsingle ha).trans hab
  · refine .andThen (.yields (.sepBy1 hT.name hT.symbol) (.sepBy1 (name_undotted hs) .symbol))
      fun parts parts' ⟨hparts, hundotted⟩ => .pure ?_
    obtain ⟨first, more, rfl⟩ := List.exists_cons_of_ne_nil hundotted.1
    have hparts : (first :: more).map f = parts' := hparts.trans (List.map_id parts')
    exact (renameDotted_intercalate f first more hundotted.2).trans (by rw [hparts]; rfl)

variable {n : Nat} (hr : (ExprRules.upTo n).Renames f s) (hs : Ordinary s)

include hr hs

/-- A type alias is not read on ordinary names, and not where an expression is a statement. -/
theorem typeAlias_carries : Carries f s (·.Faces Token.endsSimple) (BuildsStmt f)
    (typeAlias (.upTo n) <|> exprStmt (.upTo n)) (typeAlias (.upTo n) <|> exprStmt (.upTo n)) := by
  refine .orElse (.never fun c hc => ?_) (.of_renames (exprStmt_lockstep hr)) ?_
  · have hword := Parser.word_result (fun x hx => hs.unreserved x hx .type_) hc
    exact congrArg Reply.result (Parser.bind_of_none hword)
  · intro c build next _ hexpr hnext
    exact exprStmt_excludes_typeAlias hexpr hnext

/-- A simple statement carries over if its end comes next. -/
theorem simpleStmt_carries (hstar : f "*" = "*") : Carries f s (·.Faces Token.endsSimple)
    ((Pairing.renamed f).Same Recast.stmt) (simpleStmt (.upTo n)) (simpleStmt (.upTo n)) := by
  have hdotted := dotted_renamed hs hstar
  refine .node <| .orElseRead (keywordStmt_lockstep hr.toInline fun _ _ => by simp) <|
    .orElseRead (keywordStmt_lockstep hr.toInline fun _ _ => by simp) <|
    .orElseRead (keywordStmt_lockstep hr.toInline fun _ _ => by simp) <|
    .orElseRead (returnStmt_lockstep hr) <| .orElseRead (raiseStmt_lockstep hr) <|
    .orElseRead (deleteStmt_lockstep hr) <| .orElseRead (assertStmt_lockstep hr) <|
    .orElseRead (scopeStmt_lockstep hr.toInline fun _ _ _ => by simp) <|
    .orElseRead (scopeStmt_lockstep hr.toInline fun _ _ _ => by simp) <|
    .orElseRead (importStmt_lockstep hdotted) <| .orElseRead (importFromStmt_lockstep hdotted) <|
    .orElseRead (yieldStmt_lockstep hr) (typeAlias_carries hr hs)

end

end Grammar

/-! ### Lines of simple statements -/

/-- The line ends here, or behind a semicolon. -/
def Cursor.EndsLine (c : Cursor) : Prop :=
  ∃ mark next, (Parser.opt (Parser.symbol .semicolon) c).result = some (mark, next) ∧
    next.Faces (· == .newline)

theorem Cursor.EndsLine.faces (h : c.EndsLine) : c.Faces Token.endsSimple := by
  obtain ⟨mark, next, hopt, hnext⟩ := h
  intro x hx
  rcases Parser.orElse_result.mp hopt with hsome | ⟨-, hnone⟩
  · obtain ⟨_, _, hsemicolon, -⟩ := Parser.bind_result.mp hsome
    obtain ⟨y, hy, hrest⟩ := Parser.token_result hsemicolon
    rw [hrest, List.head?_cons, Option.mem_some_iff] at hx
    rw [← hx, hy]
    rfl
  · obtain ⟨-, rfl⟩ := Parser.pure_result.mp hnone
    have hnewline : x.token = .newline := by simpa using hnext x hx
    rw [hnewline]
    rfl

namespace Grammar

open Scrutiny.Parser (Renames Carries Leads Excludes Rejects Stops Yields)

section

variable {f : String → String} {s : List Lexeme} {n : Nat}

/-- Where the line ends, no further statement is read. -/
theorem simpleStmt_stops {r : ExprRules} (hr : r.Idle) :
    Stops Cursor.EndsLine (do Parser.symbol .semicolon; simpleStmt r) := by
  intro c ⟨mark, next, hopt, hnext⟩
  cases hsemicolon : (Parser.symbol .semicolon c).result with
  | none => rw [Parser.bind_of_none hsemicolon]
  | some found =>
    obtain ⟨_, mid⟩ := found
    have hsome : ((Parser.symbol .semicolon >>= fun a => pure (some a)) c).result
        = some (some (), mid) := Parser.bind_result.mpr ⟨(), mid, hsemicolon, rfl⟩
    have hmid : mid = next := by
      rw [Parser.opt, Parser.orElse_of_some hsome, hsome] at hopt
      cases hopt
      rfl
    have hfaces : mid.Faces Token.opensNoSimple := by
      intro x hx
      have hnewline : x.token = .newline := by simpa using hnext x (hmid ▸ hx)
      rw [hnewline]
      rfl
    rw [Parser.bind_of_some hsemicolon, simpleStmt_rejects hr hfaces]

/-- A line of simple statements carries over. -/
theorem simpleLine_carries (hn : 3 * s.length ≤ n) (hs : Ordinary s) (hstar : f "*" = "*") :
    Carries f s Cursor.Anywhere (SameBlock f) (simpleLine (.upTo (n + 3)))
      (simpleLine (.upTo (n + 3))) := by
  have hT := Renamed.inline f s
  have hstmt := simpleStmt_carries (.upTo f hn) hs hstar
  have hlead : Leads (·.Faces Token.endsSimple) (·.Faces Token.endsSimple)
      (do Parser.symbol .semicolon; simpleStmt (.upTo (n + 3))) := .head (.token rfl)
  have hmore : Carries f s Cursor.EndsLine (SameBlock f)
      (Parser.many (do Parser.symbol .semicolon; simpleStmt (.upTo (n + 3))))
      (Parser.many (do Parser.symbol .semicolon; simpleStmt (.upTo (n + 3)))) :=
    .many (.read hT.symbol fun _ _ _ => hstmt) hlead (simpleStmt_stops (ExprRules.upTo_idle n))
      fun _ h => h.faces
  have hstmts : Carries f s Cursor.EndsLine (SameBlock f)
      (Parser.sepBy1 (simpleStmt (.upTo (n + 3))) (Parser.symbol .semicolon))
      (Parser.sepBy1 (simpleStmt (.upTo (n + 3))) (Parser.symbol .semicolon)) :=
    .bind hstmt (fun _ _ hfirst => .bind hmore (fun _ _ hrest => .pure (by simp [hfirst, hrest]))
      fun _ => .pure) fun _ => .bind (.many hlead fun _ h => h.faces) fun _ => .pure
  have hend (stmts : List Stmt) : Leads (·.Faces (· == .newline)) Cursor.EndsLine
      (Parser.opt (Parser.symbol .semicolon) >>= fun _ => pure stmts) := by
    intro c a next hresult hnext
    obtain ⟨mark, mid, hopt, hpure⟩ := Parser.bind_result.mp hresult
    obtain ⟨-, rfl⟩ := Parser.pure_result.mp hpure
    exact ⟨mark, next, hopt, hnext⟩
  refine .bind (.bind hstmts
      (fun _ _ hstmts => .read (.optPlain hT.symbol) fun _ _ _ => .pure hstmts)
      fun stmts => hend _) (fun _ _ hstmts => ?_) fun _ => .head (.token rfl)
  exact .read (Renames.token (by simp)) fun _ _ _ => .pure hstmts

end

end Grammar

/-! ### Compound statements -/

/-- Nothing comes next that continues a statement. -/
def Cursor.Fresh (c : Cursor) : Prop := c.Faces fun t => !t.continuesStmt

/-- Whether a token is not a keyword. -/
def Token.isNot (kw : Keyword) (t : Token) : Bool := t != .keyword kw

theorem Cursor.Fresh.isNot (hkw : (Token.keyword kw).continuesStmt = true)
    (h : c.Fresh) : c.Faces (Token.isNot kw) := by
  intro x hx
  have hfresh := h x hx
  rw [Token.isNot, bne_iff_ne]
  rintro heq
  simp [heq, hkw] at hfresh

namespace Grammar

open Scrutiny.Parser (Renames Carries Leads Excludes Rejects Stops Yields)

section

variable {f : String → String} {s : List Lexeme} {r : ExprRules} {suite : Parser (List Stmt)}

/-- A clause that may be missing starts with its keyword, or nothing is read. -/
theorem elseSuite_leads {kind : Token → Bool} (hkind : kind (.keyword .else_) = true) :
    Leads (·.Faces kind) (·.Faces kind) (elseSuite suite) :=
  .bind (.opt (.head (.token hkind)) fun _ => id) fun _ => .pure

variable (hr : r.Renames f s)
  (hsuite : Carries f s Cursor.Anywhere (SameBlock f) suite suite)

include hsuite

theorem elseSuite_carries : Carries f s (·.Faces (Token.isNot .else_)) (SameBlock f)
    (elseSuite suite) (elseSuite suite) := by
  have hstop : Stops (·.Faces (Token.isNot .else_)) (do Parser.keyword .else_; suite) :=
    (Rejects.bind (.keyword rfl)).stops
  refine .bind (.opt (.read (Renamed.inline f s).keyword fun _ _ _ => hsuite.imp fun _ _ => trivial)
    hstop) (fun found found' hfound => .pure ?_) fun _ => .pure
  cases found <;> cases found' <;> simp_all

include hr

theorem ifStmt_carries :
    Carries f s Cursor.Fresh (BuildsStmt f) (ifStmt r suite) (ifStmt r suite) := by
  have helif : Carries f s Cursor.Anywhere ((Pairing.renamed f).Same recastElif)
      (do
        let mark ← Parser.spanOf (Parser.keyword .elif_)
        let test ← r.expr
        let body ← suite
        return (mark, test, body))
      (do
        let mark ← Parser.spanOf (Parser.keyword .elif_)
        let test ← r.expr
        let body ← suite
        return (mark, test, body)) :=
    .read (.spanOf hr.keyword) fun _ _ hmark => .read hr.expr fun _ _ htest =>
      .andThen hsuite fun _ _ hbody => .pure (by simp [recastElif, hmark, htest, hbody])
  have hstop : Stops (·.Faces (Token.isNot .elif_))
      (do
        let mark ← Parser.spanOf (Parser.keyword .elif_)
        let test ← r.expr
        let body ← suite
        return (mark, test, body)) := (Rejects.bind (.spanOf (.keyword rfl))).stops
  have helse := elseSuite_carries hsuite
  refine .read hr.keyword fun _ _ _ => .read hr.expr fun _ _ htest =>
    .andThen hsuite fun _ _ hbody =>
    .bind (.many helif .anywhere hstop fun _ _ => trivial) (fun _ _ helifs =>
    .bind (helse.imp fun _ h => h.isNot rfl) (fun _ _ horElse => .pure fun _ _ hspan => ?_)
    fun _ => .pure) fun _ => ?_
  · simp [htest, hbody, foldr_nestElif_recast, helifs, horElse, hspan]
  · exact .bind ((elseSuite_leads rfl).imp (fun _ h => h.isNot rfl) fun _ => id) fun _ => .pure

theorem whileStmt_carries :
    Carries f s Cursor.Fresh (BuildsStmt f) (whileStmt r suite) (whileStmt r suite) :=
  .read hr.keyword fun _ _ _ => .read hr.expr fun _ _ htest => .andThen hsuite fun _ _ hbody =>
    .bind ((elseSuite_carries hsuite).imp fun _ h => h.isNot rfl) (fun _ _ horElse =>
      .pure fun _ _ hspan => by simp [htest, hbody, horElse, hspan]) fun _ => .pure

theorem forStmt_carries :
    Carries f s Cursor.Fresh (BuildsStmt f) (forStmt r suite) (forStmt r suite) :=
  .read (.optPlain hr.keyword) fun _ _ hasync => .read hr.keyword fun _ _ _ =>
    .read (targetList_lockstep hr) fun _ _ htarget => .read hr.keyword fun _ _ _ =>
    .read (exprList_lockstep hr.toInline (starItem_lockstep hr)) fun _ _ hiter =>
    .andThen hsuite fun _ _ hbody =>
    .bind ((elseSuite_carries hsuite).imp fun _ h => h.isNot rfl) (fun _ _ horElse =>
      .pure fun _ _ hspan => by simp [hasync, htarget, hiter, hbody, horElse, hspan]) fun _ => .pure

theorem handler_carries : Carries f s K
    ((Pairing.renamed f).Same Recast.handler) (handler r suite) (handler r suite) := by
  refine .node <| .read hr.keyword fun _ _ _ => .read (.optPlain hr.symbol) fun _ _ hstar =>
    .read (.opt (handlerHeader_lockstep hr)) fun header header' hheader =>
    .andThen hsuite fun _ _ hbody => .pure fun _ _ hspan => ?_
  rcases header with _ | ⟨type, name⟩ <;> rcases header' with _ | ⟨type', name'⟩ <;> simp_all

theorem tryStmt_carries :
    Carries f s Cursor.Fresh (BuildsStmt f) (tryStmt r suite) (tryStmt r suite) := by
  have hfinally {K : Cursor → Prop} : Carries f s K (SameBlock f)
      (finallySuite suite) (finallySuite suite) :=
    .read hr.keyword fun _ _ _ => hsuite.imp fun _ _ => trivial
  have hfinal : Carries f s Cursor.Fresh ((Pairing.renamed f).Same fun m =>
      Option.map (List.map m.stmt)) (Parser.opt (finallySuite suite))
      (Parser.opt (finallySuite suite)) := by
    have hstop : Stops (·.Faces (Token.isNot .finally_)) (finallySuite suite) :=
      (Rejects.bind (.keyword rfl)).stops
    exact .opt hfinally fun _ hc => hstop (hc.isNot rfl)
  have hexcept : Rejects (Token.isNot .except_) (handler r suite) := .node (.bind (.keyword rfl))
  have hhandlers : Carries f s (·.Faces (Token.isNot .except_))
      ((Pairing.renamed f).Same fun m => List.map m.handler)
      (Parser.many1 (handler r suite)) (Parser.many1 (handler r suite)) :=
    .many1 (handler_carries hr hsuite) .anywhere hexcept.stops fun _ _ => trivial
  have hlead {kw : Keyword} (hkw : (Token.keyword kw).continuesStmt = true) (hne : kw ≠ .finally_)
      (build : Option (List Stmt) → Span → Stmt) : Leads Cursor.Fresh (·.Faces (Token.isNot kw))
        (Parser.opt (finallySuite suite) >>= fun final => pure (build final)) := by
    refine .bind (.opt (.head (.token ?_)) fun _ h => h.isNot hkw) fun _ => .pure
    simpa [Token.isNot] using hne.symm
  refine .read hr.keyword fun _ _ _ => .andThen hsuite fun _ _ hbody => .orElse ?_ ?_ ?_
  · refine .bind hhandlers
      (fun _ _ hhandlers => .bind (elseSuite_carries hsuite) (fun _ _ horElse =>
          .bind hfinal (fun final final' hfinal => .pure fun _ _ hspan => ?_) fun _ => .pure)
        fun _ => hlead rfl (by decide) _) fun _ =>
      .bind (elseSuite_leads rfl) fun _ => hlead rfl (by decide) _
    cases final <;> cases final' <;> simp_all
  · exact .andThen hfinally fun _ _ hfinal => .pure fun _ _ hspan => by simp [hbody, hfinal, hspan]
  · exact .of_leads (.head (.head (.of_stops hexcept.stops))) (.bind (.bind (.keyword rfl)))

theorem withStmt_carries : Carries f s K (BuildsStmt f) (withStmt r suite) (withStmt r suite) :=
  .read (.optPlain hr.keyword) fun _ _ hasync => .read hr.keyword fun _ _ _ =>
    .read (withItems_lockstep hr) fun _ _ hitems => .andThen hsuite fun _ _ hbody =>
    .pure fun _ _ hspan => by simp [hasync, hitems, hbody, hspan]

section

variable {K : Cursor → Prop} {ds ds' : List Expr}
  (hds : (Pairing.renamed f).Same (fun m => List.map m.expr) ds ds')

include hds

theorem functionDef_carries :
    Carries f s K (BuildsStmt f) (functionDef r suite ds) (functionDef r suite ds') :=
  .read (.optPlain hr.keyword) fun _ _ hasync => .read hr.keyword fun _ _ _ =>
    .read hr.name fun _ _ hname => .read (typeParams_lockstep hr) fun _ _ htypes =>
    .read ((hr.bracketed (params_lockstep hr true)).mono (Nat.le_succ _)) fun _ _ hparams =>
    .read (.opt (.andThen hr.symbol fun _ _ _ => hr.expr)) fun _ _ hreturns =>
    .andThen hsuite fun _ _ hbody => .pure fun _ _ hspan => by
      simp [hds, hasync, hname, htypes, hparams, hreturns, hbody, hspan]

theorem classDef_carries :
    Carries f s K (BuildsStmt f) (classDef r suite ds) (classDef r suite ds') := by
  refine .read hr.keyword fun _ _ _ => .read hr.name fun _ _ hname =>
    .read (typeParams_lockstep hr) fun _ _ htypes =>
    .read (.opt ((arguments_lockstep hr).mono (Nat.le_succ _))) fun args args' hargs =>
    .andThen hsuite fun _ _ hbody => .pure fun _ _ hspan => ?_
  rcases args with _ | ⟨bases, keywords⟩ <;> rcases args' with _ | ⟨bases', keywords'⟩ <;> simp_all

end

theorem definition_carries :
    Carries f s K (BuildsStmt f) (definition r suite) (definition r suite) := by
  have hclass (ds : List Expr) : Rejects (Token.isNot .class_) (classDef r suite ds) :=
    .bind (.keyword rfl)
  refine .read (.many (g := Recast.expr) (.andThen hr.symbol fun _ _ _ => .bind hr.expr
    fun _ _ hvalue => .bind (Renames.token (by simp)) fun _ _ _ => .pure hvalue)) fun _ _ hds =>
    .orElse (functionDef_carries hr hsuite hds) (classDef_carries hr hsuite hds) ?_
  exact .of_leads (.bind (.opt (.token rfl) fun _ => id) fun _ => .head (.token rfl)) (hclass _)

omit hr hsuite

/-- A statement that may be asynchronous and one that is a definition start differently. -/
theorem definition_excludes (hdef : kw ≠ .def_)
    (hclass : kw ≠ .class_) {k : Option Unit → Unit → Parser (Span → Stmt)} :
    Excludes n K (definition r suite)
      (Parser.opt (Parser.keyword .async_) >>= fun mark => Parser.keyword kw >>= k mark) := by
  have hlead {kind : Token → Bool} (hasync : kind (.keyword .async_) = true)
      (hkw : kind (.keyword kw) = true) : Leads Cursor.Anywhere (·.Faces kind)
        (Parser.opt (Parser.keyword .async_) >>= fun mark => Parser.keyword kw >>= k mark) :=
    .bind (.opt (.token hasync) fun _ => id) fun _ => .head (.token hkw)
  have hne {other : Keyword} (h : kw ≠ other) : Token.isNot other (.keyword kw) = true := by
    simpa [Token.isNot] using h
  have hdecorators : Parser.Skips (· != .symbol .atSign) (Parser.many do
      Parser.symbol .atSign
      let decorator ← r.expr
      Parser.token .newline
      return decorator) := .many (.bind (.symbol rfl))
  have hfunction (decorators : List Expr) (m : Nat) : Excludes m K
      (functionDef r suite decorators)
      (Parser.opt (Parser.keyword .async_) >>= fun mark => Parser.keyword kw >>= k mark) := by
    refine .behind fun _ _ => ?_
    have hdefs : Rejects (Token.isNot .def_) (Parser.keyword .def_) := .keyword rfl
    exact .of_leads (.head (.token (hne hdef))) hdefs.bind
  have hclasses (decorators : List Expr) :
      Rejects (Token.isNot .class_) (classDef r suite decorators) := .bind (.keyword rfl)
  refine .skip (hlead rfl ?_) hdecorators fun decorators =>
    .either (hfunction decorators n) (.of_leads (hlead rfl (hne hclass)) (hclasses _))
  rfl

theorem matchStmt_rejects : Rejects Token.opensCompound (matchStmt r suite) :=
  .bind (.token rfl)

/-- The statements that come later in the choice start with none of the first keywords. -/
theorem later_rejects
    (hkw : kw ∉ [.for_, .with_, .async_, .def_, .class_]) : Rejects (fun t => !Token.isNot kw t)
      (forStmt r suite <|> withStmt r suite <|> matchStmt r suite <|> definition r suite) := by
  have hne {other : Keyword} (hother : other ∈ [.for_, .with_, .async_, .def_, .class_]) :
      (!Token.isNot kw (.keyword other)) = false := by
    have hne : other ≠ kw := fun heq => hkw (heq ▸ hother)
    simpa [Token.isNot] using hne
  refine .orElse (.skip (.opt (.keyword (hne ?_))) fun _ => .bind (.keyword (hne ?_))) <|
    .orElse (.skip (.opt (.keyword (hne ?_))) fun _ => .bind (.keyword (hne ?_))) <|
    .orElse (.bind (.token rfl)) <| .skip (.many (.bind (.symbol rfl))) fun _ =>
    .orElse (.skip (.opt (.keyword (hne ?_))) fun _ => .bind (.keyword (hne ?_)))
      (.bind (.keyword (hne ?_)))
  all_goals simp

/-- **A compound statement carries over** if nothing comes next that continues it. -/
theorem compoundStmt_carries (hr : r.Renames f s) (hs : Ordinary s)
    (hsuite : Carries f s Cursor.Anywhere (SameBlock f) suite suite) :
    Carries f s Cursor.Fresh ((Pairing.renamed f).Same Recast.stmt) (compoundStmt r suite)
      (compoundStmt r suite) := by
  have hmatch : Carries f s Cursor.Fresh (BuildsStmt f) (matchStmt r suite)
      (matchStmt r suite) := by
    refine .never fun c hc => ?_
    have hword := Parser.word_result (fun x hx => hs.unreserved x hx .match_) hc
    exact congrArg Reply.result (Parser.bind_of_none hword)
  have hif : Rejects (Token.isNot .if_) (ifStmt r suite) := .bind (.keyword rfl)
  have hwhile : Rejects (Token.isNot .while_) (whileStmt r suite) := .bind (.keyword rfl)
  have htry : Rejects (Token.isNot .try_) (tryStmt r suite) := .bind (.keyword rfl)
  have hwith : Rejects (Token.isNot .with_) (Parser.keyword .with_) := .keyword rfl
  have hnames : Rejects Token.isName (definition r suite) :=
    .skip (.many (.bind (.symbol rfl))) fun _ =>
      .orElse (.skip (.opt (.keyword rfl)) fun _ => .bind (.keyword rfl)) (.bind (.keyword rfl))
  refine .node <| .orElse (ifStmt_carries hr hsuite) (.orElse (whileStmt_carries hr hsuite)
    (.orElse (tryStmt_carries hr hsuite) (.orElse (forStmt_carries hr hsuite)
    (.orElse (withStmt_carries hr hsuite) (.orElse hmatch (definition_carries hr hsuite)
    ?notMatch) ?notWith) ?notFor) ?notTry) ?notWhile) ?notIf
  case notMatch => exact .of_leads (.head (.token rfl)) hnames
  case notWith =>
    refine .either (.of_leads ?_ matchStmt_rejects) (definition_excludes (by decide) (by decide))
    exact .bind (.opt (.token rfl) fun _ => id) fun _ => .head (.token rfl)
  case notFor =>
    refine .either (.behind fun _ _ => .of_leads (.head (.token rfl)) hwith.bind)
      (.either (.of_leads ?_ matchStmt_rejects) (definition_excludes (by decide) (by decide)))
    exact .bind (.opt (.token rfl) fun _ => id) fun _ => .head (.token rfl)
  case notTry => exact .of_leads (.of_stops htry.stops) (later_rejects (by decide))
  case notWhile =>
    exact .of_leads (.of_stops hwhile.stops)
      (.orElse (.bind (.keyword rfl)) (later_rejects (by decide)))
  case notIf =>
    exact .of_leads (.of_stops hif.stops) (.orElse (.bind (.keyword rfl))
      (.orElse (.bind (.keyword rfl)) (later_rejects (by decide))))

/-- Where a line of simple statements can be read, no compound statement can. -/
theorem simpleLine_excludes_compoundStmt {m : Nat} (hm : m ≤ n) :
    Excludes m Cursor.Anywhere (simpleLine (.upTo (3 * n + 3)))
      (compoundStmt (.upTo (3 * n + 3)) suite) := by
  have hsimple := simpleLine_rejects (ExprRules.upTo_idle (3 * n))
  refine .node <| .orElse (.of_leads (.head (.token rfl)) hsimple) <|
    .orElse (.of_leads (.head (.token rfl)) hsimple) <|
    .orElse (.of_leads (.head (.token rfl)) hsimple) <|
    .orElse (.of_leads ?_ hsimple) <| .orElse (.of_leads ?_ hsimple) <| .orElse ?_ <|
    .of_leads ?_ hsimple
  · exact .bind (.opt (.token rfl) fun _ => id) fun _ => .head (.token rfl)
  · exact .bind (.opt (.token rfl) fun _ => id) fun _ => .head (.token rfl)
  · intro c a next hc hresult _
    have hsimple : (simpleLine (.upTo (3 * n + 3)) c).result ≠ none := by simp [hresult]
    exact simpleLine_excludes_matchStmt (m := n + 1) (by omega) (by omega) hsimple
  · refine .bind (.many (.head (.token rfl)) fun _ => id) fun _ => .orElse ?_ (.head (.token rfl))
    exact .bind (.opt (.token rfl) fun _ => id) fun _ => .head (.token rfl)

/-! ### Lines and modules -/

/-- A line that starts continues no statement. -/
theorem fresh_of_stops {line : Parser (List Stmt)} (hidle : Stops (·.Faces Token.isIdle) line) :
    Leads Cursor.Fresh Cursor.Fresh line := by
  refine (Leads.of_stops hidle).imp (fun _ => id) fun c hc x hx => ?_
  have hstarts := hc x hx
  by_contra hcontinues
  simp [Token.isIdle_of_continuesStmt (by simpa using hcontinues)] at hstarts

/-- A block carries over. -/
theorem block_carries {line : Parser (List Stmt)} (hn : 3 * s.length ≤ n)
    (hs : Ordinary s) (hstar : f "*" = "*")
    (hline : Carries f s Cursor.Fresh (SameBlock f) line line)
    (hidle : Stops (·.Faces Token.isIdle) line) :
    Carries f s Cursor.Anywhere (SameBlock f) (block (.upTo (n + 3)) line)
      (block (.upTo (n + 3)) line) := by
  have hstop : Stops (·.Faces (· == .dedent)) line := by
    intro c hc
    refine hidle fun x hx => ?_
    rw [eq_of_beq (hc x hx)]
    rfl
  have hfresh (c : Cursor) (hc : c.Faces (· == .dedent)) : c.Fresh := by
    intro x hx
    rw [eq_of_beq (hc x hx)]
    rfl
  refine .orElse (.read (Renames.token (by simp)) fun _ _ _ =>
    .read (Renames.token (by simp)) fun _ _ _ =>
    .bind (.many1 hline (fresh_of_stops hidle) hstop hfresh) (fun lines lines' hlines =>
      .read (Renames.token (by simp)) fun _ _ _ => .pure ?_) fun _ => .head (.token rfl))
    (simpleLine_carries hn hs hstar) ?_
  · simp [List.map_flatten, hlines]
  · exact .of_leads (.head (.token rfl)) (simpleLine_rejects (ExprRules.upTo_idle n))

theorem lineUpTo_stops (n k : Nat) : Stops (·.Faces Token.isIdle) (lineUpTo (.upTo (n + 3)) k) := by
  cases k with
  | zero => exact fun _ _ => rfl
  | succ k => exact (lineUpTo_rejects (ExprRules.upTo_idle n) k).stops

/-- **A line carries over** if nothing comes next that continues it. -/
theorem lineUpTo_carries (hn : s.length ≤ n) (hs : Ordinary s) (hstar : f "*" = "*")
    (k : Nat) : Carries f s Cursor.Fresh (SameBlock f)
      (lineUpTo (.upTo (3 * n + 3)) k) (lineUpTo (.upTo (3 * n + 3)) k) := by
  induction k with
  | zero => exact .never fun _ _ => rfl
  | succ k ih =>
    have hsuite : Carries f s Cursor.Anywhere (SameBlock f)
        (suiteUpTo (.upTo (3 * n + 3)) k) (suiteUpTo (.upTo (3 * n + 3)) k) :=
      .read (Renamed.inline f s).symbol fun _ _ _ =>
        block_carries (by omega) hs hstar ih (lineUpTo_stops _ k)
    have hr : (ExprRules.upTo (3 * n + 3)).Renames f s := .upTo f (by omega)
    have hcompound := compoundStmt_carries hr hs hsuite
    refine .orElse (.bind hcompound (fun _ _ hstmt => .pure (by simp [hstmt])) fun _ => .pure)
      ((simpleLine_carries (by omega) hs hstar).imp fun _ _ => trivial) ?_
    exact .bind fun _ _ _ hc hresult _ => simpleLine_excludes_compoundStmt hn hc hresult trivial

/-- **A module read on ordinary names is read again under any names.** -/
theorem moduleUpTo_carries (hn : s.length ≤ n) (hs : Ordinary s) (hstar : f "*" = "*") :
    Carries f s Cursor.Anywhere (fun module module' => module.rename f = module') (moduleUpTo n)
      (moduleUpTo n) := by
  have hidle := lineUpTo_stops (3 * n) (n + 1)
  have hstop : Stops Cursor.AtEnd (lineUpTo (.upTo (3 * n + 3)) (n + 1)) := by
    intro c hc
    exact hidle (by simp [Cursor.Faces, hc])
  refine .bind (.many (lineUpTo_carries hn hs hstar _) (fresh_of_stops hidle) hstop ?_)
    (fun lines lines' hlines => .read Renames.eof fun _ _ _ => .pure ?_) fun _ => .head ?_
  · intro c hc
    simp [Cursor.Fresh, Cursor.Faces, hc]
  · have hlines : lines.map (List.map (Stmt.rename f)) = lines'.map (List.map id) := hlines
    simpa [Module.rename, List.map_flatten] using congrArg List.flatten hlines
  · intro c _ next hresult _
    exact (Parser.eof_result.mp hresult).1

end

end Grammar

end Scrutiny
