/-
Which functions are reported to miss a `return`.

The scope of a function is its body, through nested blocks and expressions, without what is
inside other definitions and lambdas: these are functions and classes of their own
(`FunctionDef.Owns`).  A function that declares a value should return one somewhere in its
scope, or yield there (`FunctionDef.MissesReturn`).

The check searches twice, through blocks for a `return` and by visits for a `yield`.  What it
finds in blocks is what visits to the same scope find (`blockReturnsValue_eq_any`), so one
account of these visits does for both.  They go through expressions without regard to lambdas.
So a `yield` inside one counts for the function around it, which then is not reported; but for
that the reports are right (`missing_returns_reported_exactly`).
-/
import Scrutiny.Check.Flow.Returnless
import Scrutiny.Proofs.Syntax.Seats

namespace Scrutiny

/-! ### The scope of a function -/

/-- Whether what is inside a node belongs to a function or class of its own. -/
def Node.opensScope : Node → Bool
  | .stmt s => s.isDefinition
  | .expr (.lambda ..) => true
  | _ => false

/-- Whether a node is a `return` with a value. -/
def Node.returnsValue : Node → Bool
  | .stmt (.return_ _ (some _)) => true
  | _ => false

/-- Whether a node is a `yield`. -/
def Node.yields : Node → Bool
  | .expr (.yield ..) | .expr (.yieldFrom ..) => true
  | _ => false

namespace FunctionDef

/-- A node is in the scope of a function. -/
def Owns (definition : FunctionDef) (n : Node) : Prop :=
  ∃ s ∈ definition.body, (Node.stmt s).Reaches Node.opensScope n

/-- There is a `yield` inside a lambda in the scope of a function. -/
def YieldsInLambda (definition : FunctionDef) : Prop :=
  ∃ span params body n, definition.Owns (.expr (.lambda span params body)) ∧
    (Node.expr (.lambda span params body)).Has n ∧ n.yields = true

/-- A function declares a value, has a body that is more than placeholders, and in its scope
neither returns a value nor yields one. -/
structure MissesReturn (definition : FunctionDef) : Prop where
  name : definition.name ≠ "__init__"
  returns : ∃ hint, definition.returns = some hint ∧ (∀ span, hint ≠ .constant span .none) ∧
    ∀ name ∈ ["NoReturn", "Never", "typing.NoReturn", "typing.Never"], hint.dottedName? ≠ some name
  body : ∃ s ∈ definition.body, (∀ span inner literal, s ≠ .expr span (.string inner literal)) ∧
    ∀ span inner, s ≠ .expr span (.constant inner .ellipsis)
  nothing : ∀ n, definition.Owns n → n.returnsValue = false ∧ n.yields = false

end FunctionDef

/-! ### Lambdas -/

/-- Whether a node is part of an expression. -/
def Node.inExpression : Node → Bool
  | .expr _ | .param _ => true
  | _ => false

theorem Node.children_inExpression {n : Node} (hn : n.inExpression = true) :
    n.children.all Node.inExpression = true := by
  cases n with
  | expr e => cases e <;> simp [Node.children, Expr.children, Node.inExpression]
  | param p => simp [Node.children, Node.inExpression]
  | _ => cases hn

/-- In an expression there are no statements. -/
theorem Node.Has.inExpression {n m : Node} (h : n.Has m) (hn : n.inExpression = true) :
    m.inExpression = true := by
  induction h with
  | self => exact hn
  | child hinner _ ih => exact ih (List.all_eq_true.mp (Node.children_inExpression hn) _ hinner)

theorem Node.isRefused_of_inExpression {into : Stmt → Bool} {n : Node}
    (h : n.inExpression = true) : n.isRefused into = false := by
  cases n with
  | stmt => cases h
  | _ => rfl

/-- The statements that are looked into in search of a `return`. -/
abbrev Stmt.isLookedInto (s : Stmt) : Bool := !s.isDefinition

/-- Where only definitions are closed, one comes to what is in scope and to what is inside
lambdas there. -/
theorem Node.reaches_iff {n m : Node} :
    n.Reaches (Node.isRefused Stmt.isLookedInto) m ↔ n.Reaches Node.opensScope m ∨
      ∃ span params body, n.Reaches Node.opensScope (.expr (.lambda span params body)) ∧
        (Node.expr (.lambda span params body)).Has m := by
  constructor
  · intro h
    induction h with
    | self => exact .inl .self
    | @child n m inner hopen hinner hm ih =>
      cases hscope : n.opensScope with
      | false =>
        rcases ih with h | ⟨span, params, body, h, hhas⟩
        · exact .inl (.child hscope hinner h)
        · exact .inr ⟨span, params, body, .child hscope hinner h, hhas⟩
      | true =>
        -- A scope that is entered all the same is a lambda.
        unfold Node.opensScope at hscope
        split at hscope
        · simp [Node.isRefused, hscope] at hopen
        · exact .inr ⟨_, _, _, .self, .child hinner hm.has⟩
        · cases hscope
  · have hscope {m : Node} (h : n.Reaches Node.opensScope m) :
        n.Reaches (Node.isRefused Stmt.isLookedInto) m := by
      induction h with
      | self => exact .self
      | @child n m inner hopen hinner _ ih =>
        refine .child ?_ hinner ih
        cases n with
        | stmt s => simpa [Node.isRefused, Node.opensScope] using hopen
        | _ => rfl
    rintro (h | ⟨span, params, body, h, hhas⟩)
    · exact hscope h
    · refine (hscope h).trans (hhas.reaches fun k hk => ?_)
      exact Node.isRefused_of_inExpression (hk.inExpression rfl)

/-! ### The two searches -/

/-- Whether a visit meets a `return` with a value. -/
def Visit.isReturnOfValue : Visit → Bool
  | .enter (.return_ _ (some _)) => true
  | _ => false

theorem blockReturnsValue_eq (body : List Stmt) :
    blockReturnsValue body = body.any Stmt.returnsValue := by
  induction body with
  | nil => rfl
  | cons s rest ih => rw [blockReturnsValue, ih, List.any_cons]

theorem handlersReturnValue_eq (handlers : List Handler) :
    handlersReturnValue handlers = handlers.any fun h => h.body.any Stmt.returnsValue := by
  induction handlers with
  | nil => rfl
  | cons h rest ih =>
    obtain ⟨type, isStar, name, body, place⟩ := h
    rw [handlersReturnValue, ih, blockReturnsValue_eq, List.any_cons]

theorem casesReturnValue_eq (cases : List MatchCase) :
    casesReturnValue cases = cases.any fun c => c.body.any Stmt.returnsValue := by
  induction cases with
  | nil => rfl
  | cons c rest ih =>
    obtain ⟨pattern, binding, guard, body, place⟩ := c
    rw [casesReturnValue, ih, blockReturnsValue_eq, List.any_cons]

/-- A statement returns a value itself or in one of its blocks. -/
theorem Stmt.returnsValue_eq {s : Stmt} (h : s.isDefinition = false) : s.returnsValue =
    ((Visit.enter s).isReturnOfValue || s.blocks.flatten.any Stmt.returnsValue) := by
  cases s with
  | return_ span value => cases value <;> rfl
  | function | class_ => cases h
  | _ => simp [Stmt.returnsValue, Visit.isReturnOfValue, Stmt.blocks, blockReturnsValue_eq,
      handlersReturnValue_eq, casesReturnValue_eq, List.any_flatMap, Bool.or_assoc]

/-- From a visit on, a traversal meets a `return` of a value just if one of the nearest
statements returns one. -/
theorem Visit.any_trail_isReturnOfValue (v : Visit) :
    (v.trail fun s => !s.isDefinition).any isReturnOfValue = v.nearest.any Stmt.returnsValue := by
  have hinner : (v.inner.flatMap (trail fun s => !s.isDefinition)).any isReturnOfValue
      = v.behind.any Stmt.returnsValue := by
    rw [List.any_flatMap, ← v.nearest_inner, List.any_flatMap, Bool.eq_iff_iff, List.any_eq_true,
      List.any_eq_true]
    refine exists_congr fun w => and_congr_right fun hw => ?_
    rw [any_trail_isReturnOfValue w]
  rw [trail_eq]
  cases v with
  | enter s =>
    cases hdefinition : s.isDefinition with
    | true =>
      cases s with
      | function | class_ => rfl
      | _ => cases hdefinition
    | false =>
      rw [if_pos (by simp [isMade, hdefinition]), List.any_cons, List.any_append, hinner]
      simp [nearest, behind, last, Stmt.returnsValue_eq hdefinition, isReturnOfValue]
  | _ => simpa [isMade, isReturnOfValue, behind, nearest, last] using hinner
termination_by v.weight
decreasing_by exact weight_lt hw

/-- **The search through blocks comes to the same scope as the visits do.** -/
theorem blockReturnsValue_eq_any (body : List Stmt) :
    blockReturnsValue body = (scopeVisits body).any Visit.isReturnOfValue := by
  rw [scopeVisits, ← trail_block, List.any_flatMap, List.any_map, blockReturnsValue_eq]
  congr 1
  funext s
  simp [Visit.any_trail_isReturnOfValue, Visit.nearest]

/-- A `yield` is visited as a value wherever it stands. -/
theorem value_mem_scopeVisits {body : List Stmt} {role : Role} {e : Expr}
    (h : .expr role e ∈ scopeVisits body) (he : (Node.expr e).yields = true) :
    .expr .value e ∈ scopeVisits body := by
  by_cases hrole : role = .value
  · exact hrole ▸ h
  · have hinner : e.inner role = [.expr .value e] := by
      cases e with
      | yield | yieldFrom =>
        cases role with
        | value => exact absurd rfl hrole
        | target | pattern => rfl
      | _ => cases he
    exact blockVisits_closed h (by simp [Visit.inner, hinner]) rfl

/-- The searches find a `return` of a value or a `yield` if and only if there is one to be
reached. -/
theorem searches_iff {body : List Stmt} :
    (blockReturnsValue body || blockYields body) = true ↔
      ∃ s ∈ body, ∃ n, (Node.stmt s).Reaches (Node.isRefused Stmt.isLookedInto) n ∧
        (n.returnsValue = true ∨ n.yields = true) := by
  rw [blockReturnsValue_eq_any, blockYields]
  simp only [Bool.or_eq_true, List.any_eq_true, ← exists_or, ← and_or_left]
  constructor
  · rintro ⟨v, hv, hfound⟩
    obtain ⟨s, hs, hreaches⟩ := reaches_of_mem_blockVisits hv
    refine ⟨s, hs, v.node, hreaches, hfound.imp (fun h => ?_) fun h => ?_⟩
    · unfold Visit.isReturnOfValue at h
      split at h
      · rfl
      · cases h
    · unfold Visit.isYield at h
      split at h
      · rfl
      · rfl
      · cases h
  · rintro ⟨s, hs, n, hreaches, hreturns | hyields⟩
    · unfold Node.returnsValue at hreturns
      split at hreturns
      · obtain ⟨v, hv, hopens, hnode⟩ := hreaches.met hs _ (List.mem_singleton.mpr rfl) rfl
        cases v with
        | enter t =>
          cases hnode
          exact ⟨_, hv, .inl rfl⟩
        | leave t => cases hopens
        | _ => cases hnode
      · cases hreturns
    · cases n with
      | expr e =>
        obtain ⟨v, hv, -, hnode⟩ := hreaches.met hs _ (List.mem_singleton.mpr rfl) rfl
        cases v with
        | expr role f =>
          cases hnode
          refine ⟨_, value_mem_scopeVisits hv hyields, .inr ?_⟩
          cases e with
          | yield | yieldFrom => rfl
          | _ => cases hyields
        | _ => cases hnode
      | _ => cases hyields

namespace FunctionDef

variable {definition : FunctionDef}

theorem searches_body_iff :
    (blockReturnsValue definition.body || blockYields definition.body) = true ↔
      (∃ n, definition.Owns n ∧ (n.returnsValue = true ∨ n.yields = true)) ∨
        definition.YieldsInLambda := by
  rw [searches_iff]
  constructor
  · rintro ⟨s, hs, n, hreaches, hfound⟩
    rcases Node.reaches_iff.mp hreaches with h | ⟨span, params, body, h, hhas⟩
    · exact .inl ⟨n, ⟨s, hs, h⟩, hfound⟩
    · -- A `return` is not inside a lambda.
      have hinside := hhas.inExpression rfl
      rcases hfound with hreturns | hyields
      · cases n with
        | stmt => cases hinside
        | _ => cases hreturns
      · exact .inr ⟨span, params, body, n, ⟨s, hs, h⟩, hhas, hyields⟩
  · rintro (⟨n, ⟨s, hs, h⟩, hfound⟩ | ⟨span, params, body, n, ⟨s, hs, h⟩, hhas, hyields⟩)
    · exact ⟨s, hs, n, Node.reaches_iff.mpr (.inl h), hfound⟩
    · exact ⟨s, hs, n, Node.reaches_iff.mpr (.inr ⟨span, params, body, h, hhas⟩), .inr hyields⟩

theorem declaresValue_iff :
    definition.declaresValue = true ↔
      ∃ hint, definition.returns = some hint ∧ (∀ span, hint ≠ .constant span .none) ∧
        ∀ name ∈ ["NoReturn", "Never", "typing.NoReturn", "typing.Never"],
          hint.dottedName? ≠ some name := by
  unfold declaresValue
  split
  case h_1 hreturns => simp [hreturns]
  case h_2 hreturns => simp [hreturns]
  case h_3 hint hnone hreturns =>
    have hhint (span : Span) : hint ≠ .constant span .none := hnone span
    simp [hreturns, hhint]

theorem all_isPlaceholder_iff : definition.body.all Stmt.isPlaceholder = false ↔
      ∃ s ∈ definition.body, (∀ span inner literal, s ≠ .expr span (.string inner literal)) ∧
        ∀ span inner, s ≠ .expr span (.constant inner .ellipsis) := by
  have hstmt (s : Stmt) : s.isPlaceholder = false ↔
      (∀ span inner literal, s ≠ .expr span (.string inner literal)) ∧
        ∀ span inner, s ≠ .expr span (.constant inner .ellipsis) := by
    unfold Stmt.isPlaceholder
    split <;> simp_all
  simp [List.all_eq_false, hstmt]

/-- A function lacks a `return` as it seems, unless it has a `yield` inside a lambda. -/
theorem lacksReturn_iff :
    definition.lacksReturn = true ↔ definition.MissesReturn ∧ ¬ definition.YieldsInLambda := by
  have hfound := @searches_body_iff definition
  rw [← not_iff_not, not_or, Bool.not_eq_true] at hfound
  simp only [lacksReturn, Bool.and_eq_true, Bool.not_eq_true', hfound, bne_iff_ne,
    declaresValue_iff, all_isPlaceholder_iff]
  constructor
  · rintro ⟨⟨⟨hname, hreturns⟩, hbody⟩, hnothing, hlambda⟩
    refine ⟨⟨hname, hreturns, hbody, fun n hn => ?_⟩, hlambda⟩
    simpa using fun h => hnothing ⟨n, hn, h⟩
  · rintro ⟨⟨hname, hreturns, hbody, hnothing⟩, hlambda⟩
    refine ⟨⟨⟨hname, hreturns⟩, hbody⟩, ?_, hlambda⟩
    rintro ⟨n, hn, hfound⟩
    simp [hnothing n hn] at hfound

end FunctionDef

/-! ### Reports -/

/-- **A function is reported to miss a `return` if and only if it declares a value, is more than
placeholders and has neither a `return` of a value nor a `yield` in its scope, and there is no
`yield` inside a lambda in its scope either.**  It is reported once. -/
theorem missing_returns_reported_exactly (subject : Subject) :
    EachOnce (fun place finding => ∃ before span definition,
        subject.tree.module.seatAt? place = some ⟨before, .function span definition⟩ ∧
          definition.MissesReturn ∧ ¬ definition.YieldsInLambda ∧
          finding = .warning (subject.diagnosticAt (subject.lineOf span.start)
            s!"Function '{definition.name}' may be missing return statement"))
      (Returnless.check.findings subject) := by
  refine (subject.tree.module.eachOnce _).congr fun place finding => ?_
  constructor
  · rintro ⟨⟨before, s⟩, hseat, hpicked⟩
    obtain ⟨definition, hreturnless, rfl⟩ := Option.map_eq_some_iff.mp hpicked
    obtain ⟨hfunction, hlacks⟩ := Option.filter_eq_some_iff.mp hreturnless
    obtain ⟨span, rfl⟩ := Stmt.function?_eq_some.mp hfunction
    obtain ⟨hmisses, hlambda⟩ := FunctionDef.lacksReturn_iff.mp hlacks
    exact ⟨before, span, definition, hseat, hmisses, hlambda, rfl⟩
  · rintro ⟨before, span, definition, hseat, hmisses, hlambda, rfl⟩
    have hlacks := FunctionDef.lacksReturn_iff.mpr ⟨hmisses, hlambda⟩
    refine ⟨_, hseat, Option.map_eq_some_iff.mpr ⟨definition, ?_, rfl⟩⟩
    exact Option.filter_eq_some_iff.mpr ⟨rfl, hlacks⟩

/-- A function that declares an `int` and whose body is an assignment of a lambda that yields. -/
def FunctionDef.isLambdaYield : FunctionDef → Bool
  | ⟨"f", [], [], some (.name _ "int"),
      [.assign _ [.name _ _] (.lambda _ [] (.yield _ none))], _, _⟩ => true
  | _ => false

theorem FunctionDef.isLambdaYield_missesReturn {definition : FunctionDef}
    (h : definition.isLambdaYield = true) : definition.MissesReturn := by
  unfold isLambdaYield at h
  split at h
  case h_2 => cases h
  case h_1 =>
    refine ⟨by simp, ⟨_, rfl, by simp, by simp [Expr.dottedName?]⟩, ⟨_, List.mem_singleton.mpr rfl,
      by simp, by simp⟩, ?_⟩
    rintro n ⟨s, hs, hreaches⟩
    cases List.mem_singleton.mp hs
    cases hreaches with
    | self => exact ⟨rfl, rfl⟩
    | child _ hinner hreaches =>
      -- The target has nothing inside, and the lambda is a scope of its own.
      rcases List.mem_pair.mp hinner with rfl | rfl
      · cases hreaches with
        | self => exact ⟨rfl, rfl⟩
        | child _ hinner _ => cases hinner
      · cases hreaches with
        | self => exact ⟨rfl, rfl⟩
        | child hopen _ _ => cases hopen

/-- A function that misses a `return` is not reported: a lambda in it yields. -/
theorem yield_in_lambda_not_reported : ∃ tree,
    buildTree "def f() -> int:\n    g = lambda: (yield)\n" = .ok tree ∧
      (∃ span definition, tree.module.seatAt? [0] = some ⟨[], .function span definition⟩ ∧
        definition.MissesReturn) ∧
      Returnless.check.findings
        ⟨"def f() -> int:\n    g = lambda: (yield)\n", tree, .default⟩ = [] := by
  generalize hsource : "def f() -> int:\n    g = lambda: (yield)\n" = source
  have hok : ((buildTree source).toOption.any fun tree =>
      (tree.module.body.head?.bind Stmt.function?).any FunctionDef.isLambdaYield &&
        (Returnless.check.findings ⟨source, tree, .default⟩).isEmpty) = true := by
    rw [← hsource]
    decide +kernel
  cases htree : buildTree source with
  | error failure => simp [htree, Except.toOption] at hok
  | ok tree =>
    simp only [htree, Except.toOption, Option.any_some, Bool.and_eq_true, List.isEmpty_iff,
      Option.any_eq_true, Option.bind_eq_some_iff] at hok
    obtain ⟨⟨definition, ⟨s, hs, hfunction⟩, hyield⟩, hnone⟩ := hok
    obtain ⟨span, rfl⟩ := Stmt.function?_eq_some.mp hfunction
    obtain ⟨rest, hbody⟩ := List.head?_eq_some_iff.mp hs
    refine ⟨tree, rfl, ⟨span, definition, ?_, FunctionDef.isLambdaYield_missesReturn hyield⟩, hnone⟩
    rw [Module.seatAt?, hbody]
    rfl

end Scrutiny
