/-
Other names in a syntax tree.

`rename f` writes `f id` for every identifier `id` of a tree, wherever it stands, and changes
nothing else.  A dotted name is renamed component by component.
-/
import Scrutiny.Proofs.Syntax.Respan
import Scrutiny.Token.Basic

namespace Scrutiny

/-! ### Tokens and dotted names -/

/-- A token with another name in it. -/
def Token.rename (f : String → String) : Token → Token
  | .name text => .name (f text)
  | token => token

/-- A token of a stream with another name in it. -/
def Lexeme.rename (f : String → String) (lexeme : Lexeme) : Lexeme :=
  { lexeme with token := lexeme.token.rename f }

/-- A dotted name with its components renamed. -/
def renameDotted (f : String → String) (text : String) : String :=
  ".".intercalate ((text.toList.splitOn '.').map fun component => f (String.ofList component))

/-- A name put together from components falls into them again. -/
theorem splitOn_intercalate_dot (text : String) (texts : List String)
    (h : ∀ t ∈ text :: texts, '.' ∉ t.toList) :
    (".".intercalate (text :: texts)).toList.splitOn '.' = (text :: texts).map String.toList := by
  induction texts generalizing text with
  | nil => simpa using List.splitOn_eq_singleton (h text (by simp))
  | cons next texts ih =>
    have hchars : (text ++ "." ++ ".".intercalate (next :: texts)).toList =
        text.toList ++ '.' :: (".".intercalate (next :: texts)).toList := by simp
    rw [String.intercalate_cons_cons, hchars, List.splitOn_append_cons_self,
      List.splitOn_eq_singleton (h text (by simp)), ih next fun t ht => h t (by simp [ht])]
    rfl

theorem renameDotted_intercalate (f : String → String) (text : String) (texts : List String)
    (h : ∀ t ∈ text :: texts, '.' ∉ t.toList) :
    renameDotted f (".".intercalate (text :: texts)) = ".".intercalate ((text :: texts).map f) := by
  rw [renameDotted, splitOn_intercalate_dot text texts h, List.map_map]
  congr 2
  funext t
  simp

/-! ### Expressions -/

mutual

/-- An expression with other names. -/
def Expr.rename (f : String → String) : Expr → Expr
  | .name s id => .name s (f id)
  | .constant s value => .constant s value
  | .string s literal => .string s literal
  | .boolOp s op values => .boolOp s op (renameAll f values)
  | .binOp s left op right => .binOp s (left.rename f) op (right.rename f)
  | .unaryOp s op operand => .unaryOp s op (operand.rename f)
  | .compare s left ops comparators => .compare s (left.rename f) ops (renameAll f comparators)
  | .lambda s params body => .lambda s (renameParams f params) (body.rename f)
  | .conditional s test body orElse =>
    .conditional s (test.rename f) (body.rename f) (orElse.rename f)
  | .named s target value => .named s (target.rename f) (value.rename f)
  | .call s func args keywords =>
    .call s (func.rename f) (renameAll f args) (renameKeywords f keywords)
  | .member s value attr => .member s (value.rename f) (f attr)
  | .subscript s value index => .subscript s (value.rename f) (index.rename f)
  | .slice s lower upper step =>
    .slice s (renameOpt f lower) (renameOpt f upper) (renameOpt f step)
  | .starred s value => .starred s (value.rename f)
  | .list s elts => .list s (renameAll f elts)
  | .tuple s elts => .tuple s (renameAll f elts)
  | .set s elts => .set s (renameAll f elts)
  | .dict s items => .dict s (renameItems f items)
  | .listComp s elt clauses => .listComp s (elt.rename f) (renameClauses f clauses)
  | .setComp s elt clauses => .setComp s (elt.rename f) (renameClauses f clauses)
  | .generator s elt clauses => .generator s (elt.rename f) (renameClauses f clauses)
  | .dictComp s key value clauses =>
    .dictComp s (key.rename f) (value.rename f) (renameClauses f clauses)
  | .await s value => .await s (value.rename f)
  | .yield s value => .yield s (renameOpt f value)
  | .yieldFrom s value => .yieldFrom s (value.rename f)

/-- Some expressions with other names. -/
def renameAll (f : String → String) : List Expr → List Expr
  | [] => []
  | e :: es => e.rename f :: renameAll f es

/-- An expression that may be missing, with other names. -/
def renameOpt (f : String → String) : Option Expr → Option Expr
  | none => none
  | some e => some (e.rename f)

/-- A parameter with other names. -/
def Param.rename (f : String → String) : Param → Param
  | ⟨name, kind, hint, default, s⟩ => ⟨f name, kind, renameOpt f hint, renameOpt f default, s⟩

/-- Some parameters with other names. -/
def renameParams (f : String → String) : List Param → List Param
  | [] => []
  | p :: ps => p.rename f :: renameParams f ps

/-- A keyword argument with other names. -/
def KeywordArg.rename (f : String → String) : KeywordArg → KeywordArg
  | ⟨arg, value⟩ => ⟨arg.map f, value.rename f⟩

/-- Some keyword arguments with other names. -/
def renameKeywords (f : String → String) : List KeywordArg → List KeywordArg
  | [] => []
  | k :: ks => k.rename f :: renameKeywords f ks

/-- An item of a dictionary with other names. -/
def DictItem.rename (f : String → String) : DictItem → DictItem
  | ⟨key, value⟩ => ⟨renameOpt f key, value.rename f⟩

/-- Some items of a dictionary with other names. -/
def renameItems (f : String → String) : List DictItem → List DictItem
  | [] => []
  | i :: is => i.rename f :: renameItems f is

/-- A clause of a comprehension with other names. -/
def Comprehension.rename (f : String → String) : Comprehension → Comprehension
  | ⟨target, iter, conditions, isAsync⟩ =>
    ⟨target.rename f, iter.rename f, renameAll f conditions, isAsync⟩

/-- Some clauses of a comprehension with other names. -/
def renameClauses (f : String → String) : List Comprehension → List Comprehension
  | [] => []
  | c :: cs => c.rename f :: renameClauses f cs

end

/-! ### Statements -/

/-- An imported name with other names. -/
def Alias.rename (f : String → String) (a : Alias) : Alias :=
  ⟨renameDotted f a.name, a.asName.map f⟩

/-- An item of a `with`, with other names. -/
def WithItem.rename (f : String → String) (item : WithItem) : WithItem :=
  ⟨item.context.rename f, item.vars.map (·.rename f)⟩

/-- A type parameter with other names. -/
def TypeParam.rename (f : String → String) (param : TypeParam) : TypeParam :=
  ⟨f param.name, param.bound.map (·.rename f), param.span⟩

mutual

/-- A statement with other names. -/
def Stmt.rename (f : String → String) : Stmt → Stmt
  | .expr s value => .expr s (value.rename f)
  | .assign s targets value => .assign s (targets.map (·.rename f)) (value.rename f)
  | .augAssign s target op value => .augAssign s (target.rename f) op (value.rename f)
  | .annAssign s target hint value =>
    .annAssign s (target.rename f) (hint.rename f) (value.map (·.rename f))
  | .pass_ s => .pass_ s
  | .break_ s => .break_ s
  | .continue_ s => .continue_ s
  | .return_ s value => .return_ s (value.map (·.rename f))
  | .raise_ s exc cause => .raise_ s (exc.map (·.rename f)) (cause.map (·.rename f))
  | .delete_ s targets => .delete_ s (targets.map (·.rename f))
  | .assert_ s test msg => .assert_ s (test.rename f) (msg.map (·.rename f))
  | .global_ s names => .global_ s (names.map f)
  | .nonlocal_ s names => .nonlocal_ s (names.map f)
  | .import_ s names => .import_ s (names.map (·.rename f))
  | .importFrom s module level names =>
    .importFrom s (module.map (renameDotted f)) level (names.map (·.rename f))
  | .if_ s test body orElse =>
    .if_ s (test.rename f) (renameBlock f body) (renameBlock f orElse)
  | .while_ s test body orElse =>
    .while_ s (test.rename f) (renameBlock f body) (renameBlock f orElse)
  | .for_ s target iter body orElse isAsync =>
    .for_ s (target.rename f) (iter.rename f) (renameBlock f body) (renameBlock f orElse)
      isAsync
  | .try_ s body handlers orElse finalBody =>
    .try_ s (renameBlock f body) (renameHandlers f handlers) (renameBlock f orElse)
      (renameBlock f finalBody)
  | .with_ s items body isAsync =>
    .with_ s (items.map (·.rename f)) (renameBlock f body) isAsync
  | .match_ s subject cases => .match_ s (subject.rename f) (renameCases f cases)
  | .typeAlias s name typeParams value =>
    .typeAlias s (name.rename f) (typeParams.map (·.rename f)) (value.rename f)
  | .function s definition => .function s (definition.rename f)
  | .class_ s definition => .class_ s (definition.rename f)

/-- A block with other names. -/
def renameBlock (f : String → String) : List Stmt → List Stmt
  | [] => []
  | s :: ss => s.rename f :: renameBlock f ss

/-- A handler with other names. -/
def Handler.rename (f : String → String) : Handler → Handler
  | ⟨type, isStar, name, body, s⟩ =>
    ⟨type.map (·.rename f), isStar, name.map f, renameBlock f body, s⟩

/-- Some handlers with other names. -/
def renameHandlers (f : String → String) : List Handler → List Handler
  | [] => []
  | h :: hs => h.rename f :: renameHandlers f hs

/-- A case clause with other names. -/
def MatchCase.rename (f : String → String) : MatchCase → MatchCase
  | ⟨pattern, binding, guard, body, s⟩ =>
    ⟨pattern.rename f, binding.map (·.rename f), guard.map (·.rename f), renameBlock f body, s⟩

/-- Some case clauses with other names. -/
def renameCases (f : String → String) : List MatchCase → List MatchCase
  | [] => []
  | c :: cs => c.rename f :: renameCases f cs

/-- A function with other names. -/
def FunctionDef.rename (f : String → String) : FunctionDef → FunctionDef
  | ⟨name, typeParams, params, returns, body, decorators, isAsync⟩ =>
    ⟨f name, typeParams.map (·.rename f), params.map (·.rename f), returns.map (·.rename f),
      renameBlock f body, decorators.map (·.rename f), isAsync⟩

/-- A class with other names. -/
def ClassDef.rename (f : String → String) : ClassDef → ClassDef
  | ⟨name, typeParams, bases, keywords, body, decorators⟩ =>
    ⟨f name, typeParams.map (·.rename f), bases.map (·.rename f), keywords.map (·.rename f),
      renameBlock f body, decorators.map (·.rename f)⟩

end

/-- A module with other names. -/
def Module.rename (f : String → String) (module : Module) : Module :=
  ⟨renameBlock f module.body⟩

attribute [simp] Token.rename Expr.rename Param.rename KeywordArg.rename DictItem.rename
  Comprehension.rename Stmt.rename Handler.rename MatchCase.rename FunctionDef.rename
  ClassDef.rename

section

variable (f : String → String)

@[simp] theorem renameOpt_eq (value : Option Expr) :
    renameOpt f value = value.map (·.rename f) := by
  cases value with
  | none => rw [renameOpt, Option.map_none]
  | some e => rw [renameOpt, Option.map_some]

@[simp] theorem renameAll_eq (es : List Expr) : renameAll f es = es.map (·.rename f) :=
  eq_map_of_cons rfl (fun _ _ => rfl) es

@[simp] theorem renameParams_eq (ps : List Param) : renameParams f ps = ps.map (·.rename f) :=
  eq_map_of_cons rfl (fun _ _ => rfl) ps

@[simp] theorem renameKeywords_eq (ks : List KeywordArg) :
    renameKeywords f ks = ks.map (·.rename f) :=
  eq_map_of_cons rfl (fun _ _ => rfl) ks

@[simp] theorem renameItems_eq (is : List DictItem) : renameItems f is = is.map (·.rename f) :=
  eq_map_of_cons rfl (fun _ _ => rfl) is

@[simp] theorem renameClauses_eq (cs : List Comprehension) :
    renameClauses f cs = cs.map (·.rename f) :=
  eq_map_of_cons rfl (fun _ _ => rfl) cs

@[simp] theorem renameBlock_eq (ss : List Stmt) : renameBlock f ss = ss.map (·.rename f) :=
  eq_map_of_cons rfl (fun _ _ => rfl) ss

@[simp] theorem renameHandlers_eq (hs : List Handler) : renameHandlers f hs = hs.map (·.rename f) :=
  eq_map_of_cons rfl (fun _ _ => rfl) hs

@[simp] theorem renameCases_eq (cs : List MatchCase) : renameCases f cs = cs.map (·.rename f) :=
  eq_map_of_cons rfl (fun _ _ => rfl) cs

end

end Scrutiny
