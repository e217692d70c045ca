/-
The ledger of names and literals.

Two things are read that are not leaves of a tree.  The words `match`, `case` and
`type` are names, and where a statement is told by one it is used up.  And a type
parameter may have a default, which is read as an expression and left out.

A ledger therefore has two columns (`ledgerTally`): names and literals, and type
parameters, each of which stands for the tokens of its default as well.  `entries`
is what some statements enter in it, with all the statements inside them.
-/
import Scrutiny.Proofs.Grammar.ExprLeaves

namespace Scrutiny

/-! ### Defaults of type parameters -/

/-- The rule for expressions reads `value` and stops before `after`. -/
def ReadsExpr (value after : List Lexeme) : Prop :=
  ∃ n c e next, c.rest = value ++ after ∧ next.rest = after ∧
    ((ExprRules.upTo n).expr c).result = some (e, next)

/-- A type parameter stands in a stream with these tokens as its default: none, or
`=` and an expression.  What stands before them is the parameter itself. -/
def TypeParam.ReadWith (stream : List Lexeme) (p : TypeParam) (default : List Lexeme) : Prop :=
  ∃ before head after, stream = before ++ (head ++ default) ++ after ∧
    p.span.Frames (head ++ default) ∧ literals head = p.leaves ∧
    (default = [] ∨ ∃ mark value, default = mark :: value ∧ mark.token = .symbol .assign ∧
      ReadsExpr value after)

/-- Tokens are worth the names and literals among them, and a type parameter the
names and literals of its default. -/
def ledgerTally (stream : List Lexeme) : Tally (Multiset Token × Multiset TypeParam) where
  stream := stream
  weighs xs x := ∃ defaults : Multiset (TypeParam × List Lexeme),
    (∀ d ∈ defaults, d.1.ReadWith stream d.2) ∧ defaults.map Prod.fst = x.2 ∧
      literals xs = x.1 + (defaults.map fun d => literals d.2).sum
  one token := (literals [⟨token, default⟩], 0)
  weighs_nil := ⟨0, by simp⟩
  weighs_append := by
    rintro xs ys x y ⟨ds₁, hread₁, hparams₁, htokens₁⟩ ⟨ds₂, hread₂, hparams₂, htokens₂⟩
    refine ⟨ds₁ + ds₂, ?_, by simp [hparams₁, hparams₂], ?_⟩
    · intro d hd
      rcases Multiset.mem_add.mp hd with hd | hd
      · exact hread₁ d hd
      · exact hread₂ d hd
    · rw [literals_append, htokens₁, htokens₂, Multiset.map_add, Multiset.sum_add, Prod.fst_add]
      abel
  weighs_one lexeme := ⟨0, by simp [literals]⟩
  one_eq_zero h := by simp [literals, h]

/-- What counts names and literals alone fills the first column. -/
theorem Parser.Totals.ledger {α : Type} {s : List Lexeme} {p : Parser α} {g : α → Multiset Token}
    (hp : Totals (leafTally s) 0 p g) : Totals (ledgerTally s) 0 p fun a => (g a, 0) := by
  intro c a next hc hresult
  obtain ⟨read, x, hadv, hweighs, htotal⟩ := hp hc hresult
  refine ⟨read, (x, 0), hadv, ⟨0, by simp, rfl, ?_⟩, by simp [← htotal]⟩
  rw [Multiset.map_zero, Multiset.sum_zero, add_zero]
  exact hweighs

/-! ### What statements enter -/

/-- What a statement enters in the ledger, outside the statements inside it. -/
def Stmt.entry (stmt : Stmt) : Multiset Token × Multiset TypeParam :=
  (stmt.ownLeaves + stmt.softWords, ↑stmt.typeParams)

/-- What some statements enter in the ledger, with all the statements inside them. -/
def entries (stmts : List Stmt) : Multiset Token × Multiset TypeParam :=
  ((allStmts stmts).map Stmt.entry).sum

attribute [simp] Stmt.ownLeaves Stmt.softWords Stmt.typeParams allStmts Stmt.withInner
  FunctionDef.innerStmts ClassDef.innerStmts

@[simp] theorem entries_nil : entries [] = 0 := by
  simp [entries]

theorem entries_cons (stmt : Stmt) (stmts : List Stmt) :
    entries (stmt :: stmts) = entries [stmt] + entries stmts := by
  simp [entries]

theorem entries_eq_sum (stmts : List Stmt) :
    entries stmts = (stmts.map fun stmt => entries [stmt]).sum := by
  induction stmts with
  | nil => simp
  | cons stmt stmts ih => rw [entries_cons, ih, List.map_cons, List.sum_cons]

theorem entries_flatten (blocks : List (List Stmt)) :
    entries blocks.flatten = (blocks.map entries).sum := by
  induction blocks with
  | nil => simp
  | cons block blocks ih =>
    rw [List.flatten_cons, entries_eq_sum, List.map_append, List.sum_append, ← entries_eq_sum,
      ← entries_eq_sum, ih, List.map_cons, List.sum_cons]

theorem entries_if (span : Span) (test : Expr) (body orElse : List Stmt) :
    entries [.if_ span test body orElse] = (test.leaves, 0) + entries body + entries orElse := by
  simp [entries, Stmt.entry, add_assoc]

/-- What a handler enters. -/
def Handler.entries (h : Handler) : Multiset Token × Multiset TypeParam :=
  (h.headLeaves, 0) + Scrutiny.entries h.body

/-- What a case clause enters: its word is one more name. -/
def MatchCase.entries (c : MatchCase) : Multiset Token × Multiset TypeParam :=
  (c.headLeaves + {.name "case"}, 0) + Scrutiny.entries c.body

theorem sum_map_pair {α : Type} (f : α → Multiset Token) (xs : List α) :
    (xs.map fun x => (f x, (0 : Multiset TypeParam))).sum = ((xs.map f).sum, 0) := by
  rw [← AddMonoidHom.inl_apply, map_list_sum, List.map_map]
  rfl

theorem entries_try (span : Span) (body : List Stmt) (handlers : List Handler)
    (orElse finalBody : List Stmt) : entries [.try_ span body handlers orElse finalBody] =
      entries body + (handlers.map Handler.entries).sum + entries orElse + entries finalBody := by
  have hinner : ((handlerStmts handlers).map Stmt.entry).sum =
      (handlers.map fun h => entries h.body).sum := by
    induction handlers with
    | nil => rfl
    | cons h handlers ih =>
      obtain ⟨type, isStar, name, block, place⟩ := h
      rw [handlerStmts, List.map_append, List.sum_append, ih, List.map_cons, List.sum_cons]
      rfl
  have hsum : (handlers.map Handler.entries).sum =
      ((handlers.map Handler.headLeaves).sum, 0) + (handlers.map fun h => entries h.body).sum := by
    rw [← sum_map_pair, ← List.sum_map_add]
    rfl
  have hown : (Stmt.try_ span body handlers orElse finalBody).entry =
      ((handlers.map Handler.headLeaves).sum, 0) := by
    simp [Stmt.entry]
  calc entries [.try_ span body handlers orElse finalBody]
      = (Stmt.try_ span body handlers orElse finalBody).entry + (entries body +
          ((handlerStmts handlers).map Stmt.entry).sum + entries orElse + entries finalBody) := by
        simp [entries, add_assoc]
    _ = _ := by rw [hown, hsum, hinner]; abel

theorem entries_match (span : Span) (subject : Expr) (cases : List MatchCase) :
    entries [.match_ span subject cases] =
      ({.name "match"} + subject.leaves, 0) + (cases.map MatchCase.entries).sum := by
  have hinner : ((caseStmts cases).map Stmt.entry).sum =
      (cases.map fun c => entries c.body).sum := by
    induction cases with
    | nil => rfl
    | cons c cases ih =>
      obtain ⟨pattern, binding, guard, block, place⟩ := c
      rw [caseStmts, List.map_append, List.sum_append, ih, List.map_cons, List.sum_cons]
      rfl
  have hheads : (cases.map fun c => c.headLeaves + {Token.name "case"}).sum =
      (cases.map MatchCase.headLeaves).sum + cases.length • {Token.name "case"} := by
    rw [List.sum_map_add, List.map_const', List.sum_replicate]
  have hsum : (cases.map MatchCase.entries).sum =
      ((cases.map MatchCase.headLeaves).sum + cases.length • {Token.name "case"}, 0) +
        (cases.map fun c => entries c.body).sum := by
    rw [← hheads, ← sum_map_pair, ← List.sum_map_add]
    rfl
  have hown : (Stmt.match_ span subject cases).entry = ({.name "match"} + subject.leaves, 0) +
      ((cases.map MatchCase.headLeaves).sum + cases.length • {Token.name "case"}, 0) := by
    refine Prod.ext ?_ rfl
    simp only [Stmt.entry, Stmt.ownLeaves, Stmt.softWords, Prod.fst_add]
    abel
  calc entries [.match_ span subject cases]
      = (Stmt.match_ span subject cases).entry + ((caseStmts cases).map Stmt.entry).sum := by
        simp [entries]
    _ = _ := by rw [hown, hsum, hinner, add_assoc]

theorem entries_typeAlias (span : Span) (name : Expr) (params : List TypeParam) (value : Expr) :
    entries [.typeAlias span name params value] = ({.name "type"} + name.leaves +
      (params.map TypeParam.leaves).sum + value.leaves, ↑params) := by
  have hown : (Stmt.typeAlias span name params value).entry = ({.name "type"} + name.leaves +
      (params.map TypeParam.leaves).sum + value.leaves, ↑params) := by
    refine Prod.ext ?_ rfl
    simp only [Stmt.entry, Stmt.ownLeaves, Stmt.softWords]
    abel
  simp [entries, hown]

/-- The columns of the ledger of a whole module. -/
theorem entries_module (module : Module) :
    entries module.body = (module.leaves + module.softWords, module.typeParams) := by
  unfold entries Module.leaves Module.softWords Module.typeParams
  induction allStmts module.body with
  | nil => rfl
  | cons stmt stmts ih =>
    simp only [List.map_cons, List.sum_cons, ih, List.flatMap_cons, ← Multiset.coe_add]
    refine Prod.ext ?_ rfl
    simp only [Stmt.entry, Prod.fst_add]
    abel

end Scrutiny
