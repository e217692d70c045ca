/-
Moving the spans of a syntax tree.

`respan u` applies `u` to both ends of every span in a tree and changes nothing else.
Where the text in front of a module grows, its spans are moved by an addition; where
only the shape of a tree matters, they are all sent to zero (`Stmt.bare`).

Every way of building a tree commutes with it, so equations between moved trees go
through the grammar part by part.
-/
import Scrutiny.Syntax.Stmt

namespace Scrutiny

/-- Both ends of a span moved. -/
def Span.respan (u : Nat → Nat) (span : Span) : Span := ⟨u span.start, u span.stop⟩

/-! ### Expressions -/

mutual

/-- An expression with its spans moved. -/
def Expr.respan (u : Nat → Nat) : Expr → Expr
  | .name s id => .name (s.respan u) id
  | .constant s value => .constant (s.respan u) value
  | .string s literal => .string (s.respan u) literal
  | .boolOp s op values => .boolOp (s.respan u) op (respanAll u values)
  | .binOp s left op right => .binOp (s.respan u) (left.respan u) op (right.respan u)
  | .unaryOp s op operand => .unaryOp (s.respan u) op (operand.respan u)
  | .compare s left ops comparators =>
    .compare (s.respan u) (left.respan u) ops (respanAll u comparators)
  | .lambda s params body => .lambda (s.respan u) (respanParams u params) (body.respan u)
  | .conditional s test body orElse =>
    .conditional (s.respan u) (test.respan u) (body.respan u) (orElse.respan u)
  | .named s target value => .named (s.respan u) (target.respan u) (value.respan u)
  | .call s func args keywords =>
    .call (s.respan u) (func.respan u) (respanAll u args) (respanKeywords u keywords)
  | .member s value attr => .member (s.respan u) (value.respan u) attr
  | .subscript s value index => .subscript (s.respan u) (value.respan u) (index.respan u)
  | .slice s lower upper step =>
    .slice (s.respan u) (respanOpt u lower) (respanOpt u upper) (respanOpt u step)
  | .starred s value => .starred (s.respan u) (value.respan u)
  | .list s elts => .list (s.respan u) (respanAll u elts)
  | .tuple s elts => .tuple (s.respan u) (respanAll u elts)
  | .set s elts => .set (s.respan u) (respanAll u elts)
  | .dict s items => .dict (s.respan u) (respanItems u items)
  | .listComp s elt clauses => .listComp (s.respan u) (elt.respan u) (respanClauses u clauses)
  | .setComp s elt clauses => .setComp (s.respan u) (elt.respan u) (respanClauses u clauses)
  | .generator s elt clauses => .generator (s.respan u) (elt.respan u) (respanClauses u clauses)
  | .dictComp s key value clauses =>
    .dictComp (s.respan u) (key.respan u) (value.respan u) (respanClauses u clauses)
  | .await s value => .await (s.respan u) (value.respan u)
  | .yield s value => .yield (s.respan u) (respanOpt u value)
  | .yieldFrom s value => .yieldFrom (s.respan u) (value.respan u)

/-- Some expressions with their spans moved. -/
def respanAll (u : Nat → Nat) : List Expr → List Expr
  | [] => []
  | e :: es => e.respan u :: respanAll u es

/-- An expression that may be missing, with its spans moved. -/
def respanOpt (u : Nat → Nat) : Option Expr → Option Expr
  | none => none
  | some e => some (e.respan u)

/-- A parameter with its spans moved. -/
def Param.respan (u : Nat → Nat) : Param → Param
  | ⟨name, kind, hint, default, s⟩ =>
    ⟨name, kind, respanOpt u hint, respanOpt u default, s.respan u⟩

/-- Some parameters with their spans moved. -/
def respanParams (u : Nat → Nat) : List Param → List Param
  | [] => []
  | p :: ps => p.respan u :: respanParams u ps

/-- A keyword argument with its spans moved. -/
def KeywordArg.respan (u : Nat → Nat) : KeywordArg → KeywordArg
  | ⟨arg, value⟩ => ⟨arg, value.respan u⟩

/-- Some keyword arguments with their spans moved. -/
def respanKeywords (u : Nat → Nat) : List KeywordArg → List KeywordArg
  | [] => []
  | k :: ks => k.respan u :: respanKeywords u ks

/-- An item of a dictionary with its spans moved. -/
def DictItem.respan (u : Nat → Nat) : DictItem → DictItem
  | ⟨key, value⟩ => ⟨respanOpt u key, value.respan u⟩

/-- Some items of a dictionary with their spans moved. -/
def respanItems (u : Nat → Nat) : List DictItem → List DictItem
  | [] => []
  | i :: is => i.respan u :: respanItems u is

/-- A clause of a comprehension with its spans moved. -/
def Comprehension.respan (u : Nat → Nat) : Comprehension → Comprehension
  | ⟨target, iter, conditions, isAsync⟩ =>
    ⟨target.respan u, iter.respan u, respanAll u conditions, isAsync⟩

/-- Some clauses of a comprehension with their spans moved. -/
def respanClauses (u : Nat → Nat) : List Comprehension → List Comprehension
  | [] => []
  | c :: cs => c.respan u :: respanClauses u cs

end

/-! ### Statements -/

/-- An item of a `with`, with its spans moved. -/
def WithItem.respan (u : Nat → Nat) (item : WithItem) : WithItem :=
  ⟨item.context.respan u, item.vars.map (·.respan u)⟩

/-- A type parameter with its spans moved. -/
def TypeParam.respan (u : Nat → Nat) (param : TypeParam) : TypeParam :=
  ⟨param.name, param.bound.map (·.respan u), param.span.respan u⟩

mutual

/-- A statement with its spans moved. -/
def Stmt.respan (u : Nat → Nat) : Stmt → Stmt
  | .expr s value => .expr (s.respan u) (value.respan u)
  | .assign s targets value => .assign (s.respan u) (targets.map (·.respan u)) (value.respan u)
  | .augAssign s target op value => .augAssign (s.respan u) (target.respan u) op (value.respan u)
  | .annAssign s target hint value =>
    .annAssign (s.respan u) (target.respan u) (hint.respan u) (value.map (·.respan u))
  | .pass_ s => .pass_ (s.respan u)
  | .break_ s => .break_ (s.respan u)
  | .continue_ s => .continue_ (s.respan u)
  | .return_ s value => .return_ (s.respan u) (value.map (·.respan u))
  | .raise_ s exc cause => .raise_ (s.respan u) (exc.map (·.respan u)) (cause.map (·.respan u))
  | .delete_ s targets => .delete_ (s.respan u) (targets.map (·.respan u))
  | .assert_ s test msg => .assert_ (s.respan u) (test.respan u) (msg.map (·.respan u))
  | .global_ s names => .global_ (s.respan u) names
  | .nonlocal_ s names => .nonlocal_ (s.respan u) names
  | .import_ s names => .import_ (s.respan u) names
  | .importFrom s module level names => .importFrom (s.respan u) module level names
  | .if_ s test body orElse =>
    .if_ (s.respan u) (test.respan u) (respanBlock u body) (respanBlock u orElse)
  | .while_ s test body orElse =>
    .while_ (s.respan u) (test.respan u) (respanBlock u body) (respanBlock u orElse)
  | .for_ s target iter body orElse isAsync =>
    .for_ (s.respan u) (target.respan u) (iter.respan u) (respanBlock u body)
      (respanBlock u orElse) isAsync
  | .try_ s body handlers orElse finalBody =>
    .try_ (s.respan u) (respanBlock u body) (respanHandlers u handlers) (respanBlock u orElse)
      (respanBlock u finalBody)
  | .with_ s items body isAsync =>
    .with_ (s.respan u) (items.map (·.respan u)) (respanBlock u body) isAsync
  | .match_ s subject cases => .match_ (s.respan u) (subject.respan u) (respanCases u cases)
  | .typeAlias s name typeParams value =>
    .typeAlias (s.respan u) (name.respan u) (typeParams.map (·.respan u)) (value.respan u)
  | .function s definition => .function (s.respan u) (definition.respan u)
  | .class_ s definition => .class_ (s.respan u) (definition.respan u)

/-- A block with its spans moved. -/
def respanBlock (u : Nat → Nat) : List Stmt → List Stmt
  | [] => []
  | s :: rest => s.respan u :: respanBlock u rest

/-- A handler with its spans moved. -/
def Handler.respan (u : Nat → Nat) : Handler → Handler
  | ⟨type, isStar, name, body, s⟩ =>
    ⟨type.map (·.respan u), isStar, name, respanBlock u body, s.respan u⟩

/-- Some handlers with their spans moved. -/
def respanHandlers (u : Nat → Nat) : List Handler → List Handler
  | [] => []
  | h :: hs => h.respan u :: respanHandlers u hs

/-- A case clause with its spans moved. -/
def MatchCase.respan (u : Nat → Nat) : MatchCase → MatchCase
  | ⟨pattern, binding, guard, body, s⟩ =>
    ⟨pattern.respan u, binding.map (·.respan u), guard.map (·.respan u), respanBlock u body,
      s.respan u⟩

/-- Some case clauses with their spans moved. -/
def respanCases (u : Nat → Nat) : List MatchCase → List MatchCase
  | [] => []
  | c :: cs => c.respan u :: respanCases u cs

/-- A function with its spans moved. -/
def FunctionDef.respan (u : Nat → Nat) : FunctionDef → FunctionDef
  | ⟨name, typeParams, params, returns, body, decorators, isAsync⟩ =>
    ⟨name, typeParams.map (·.respan u), params.map (·.respan u), returns.map (·.respan u),
      respanBlock u body, decorators.map (·.respan u), isAsync⟩

/-- A class with its spans moved. -/
def ClassDef.respan (u : Nat → Nat) : ClassDef → ClassDef
  | ⟨name, typeParams, bases, keywords, body, decorators⟩ =>
    ⟨name, typeParams.map (·.respan u), bases.map (·.respan u), keywords.map (·.respan u),
      respanBlock u body, decorators.map (·.respan u)⟩

end

/-- A statement without its places. -/
def Stmt.bare : Stmt → Stmt := Stmt.respan fun _ => 0

attribute [simp] Expr.respan Param.respan KeywordArg.respan DictItem.respan Comprehension.respan
  Stmt.respan Handler.respan MatchCase.respan FunctionDef.respan ClassDef.respan WithItem.respan
  TypeParam.respan

/-! ### Lists of parts are moved one by one -/

/-- What is done to each item of a list on its own is a map. -/
theorem eq_map_of_cons {α β : Type} {g : α → β} {h : List α → List β} (hnil : h [] = [])
    (hcons : ∀ a as, h (a :: as) = g a :: h as) (as : List α) : h as = as.map g := by
  induction as with
  | nil => exact hnil
  | cons a as ih => rw [hcons, ih, List.map_cons]

section

variable (u : Nat → Nat)

@[simp] theorem respanOpt_eq (value : Option Expr) :
    respanOpt u value = value.map (·.respan u) := by
  cases value with
  | none => rw [respanOpt, Option.map_none]
  | some e => rw [respanOpt, Option.map_some]

@[simp] theorem respanAll_eq (es : List Expr) : respanAll u es = es.map (·.respan u) :=
  eq_map_of_cons rfl (fun _ _ => rfl) es

@[simp] theorem respanParams_eq (ps : List Param) : respanParams u ps = ps.map (·.respan u) :=
  eq_map_of_cons rfl (fun _ _ => rfl) ps

@[simp] theorem respanKeywords_eq (ks : List KeywordArg) :
    respanKeywords u ks = ks.map (·.respan u) :=
  eq_map_of_cons rfl (fun _ _ => rfl) ks

@[simp] theorem respanItems_eq (is : List DictItem) : respanItems u is = is.map (·.respan u) :=
  eq_map_of_cons rfl (fun _ _ => rfl) is

@[simp] theorem respanClauses_eq (cs : List Comprehension) :
    respanClauses u cs = cs.map (·.respan u) :=
  eq_map_of_cons rfl (fun _ _ => rfl) cs

@[simp] theorem respanBlock_eq (stmts : List Stmt) : respanBlock u stmts = stmts.map (·.respan u) :=
  eq_map_of_cons rfl (fun _ _ => rfl) stmts

@[simp] theorem respanHandlers_eq (hs : List Handler) : respanHandlers u hs = hs.map (·.respan u) :=
  eq_map_of_cons rfl (fun _ _ => rfl) hs

@[simp] theorem respanCases_eq (cs : List MatchCase) : respanCases u cs = cs.map (·.respan u) :=
  eq_map_of_cons rfl (fun _ _ => rfl) cs

end

end Scrutiny
