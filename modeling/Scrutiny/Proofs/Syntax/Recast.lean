/-
Maps of syntax trees that keep their shape.

Moving the spans of a tree and giving it other names have this in common: every node
stays a node of its kind, with its parts where they were.  A `Recast` is such a map, with
one equation for each kind of node, and what holds of all of them is said once.

Nothing here is an induction: what a map does below a node is what it does there.
-/
import Scrutiny.Proofs.Syntax.Rename
import Scrutiny.Proofs.Syntax.Respan

namespace Scrutiny

@[simp] theorem Span.respan_id (span : Span) : span.respan id = span := rfl

/-- A map of trees that may change offsets and names, and nothing else. -/
structure Recast where
  offset : Nat → Nat
  ident : String → String
  dotted : String → String
  expr : Expr → Expr
  param : Param → Param
  keyword : KeywordArg → KeywordArg
  item : DictItem → DictItem
  clause : Comprehension → Comprehension
  imported : Alias → Alias
  withItem : WithItem → WithItem
  typeParam : TypeParam → TypeParam
  stmt : Stmt → Stmt
  handler : Handler → Handler
  matchCase : MatchCase → MatchCase
  functionDef : FunctionDef → FunctionDef
  classDef : ClassDef → ClassDef
  name (s id) : expr (.name s id) = .name (s.respan offset) (ident id) := by simp
  constant (s c) : expr (.constant s c) = .constant (s.respan offset) c := by simp
  string (s l) : expr (.string s l) = .string (s.respan offset) l := by simp
  boolOp (s op es) : expr (.boolOp s op es) = .boolOp (s.respan offset) op (es.map expr) := by simp
  binOp (s l op r) : expr (.binOp s l op r) = .binOp (s.respan offset) (expr l) op (expr r) := by
    simp
  unaryOp (s op e) : expr (.unaryOp s op e) = .unaryOp (s.respan offset) op (expr e) := by simp
  compare (s l ops es) :
    expr (.compare s l ops es) = .compare (s.respan offset) (expr l) ops (es.map expr) := by simp
  lambda (s ps e) : expr (.lambda s ps e) = .lambda (s.respan offset) (ps.map param) (expr e) := by
    simp
  conditional (s t b e) : expr (.conditional s t b e)
    = .conditional (s.respan offset) (expr t) (expr b) (expr e) := by simp
  named (s t v) : expr (.named s t v) = .named (s.respan offset) (expr t) (expr v) := by simp
  call (s e es ks) : expr (.call s e es ks)
    = .call (s.respan offset) (expr e) (es.map expr) (ks.map keyword) := by simp
  member (s e attr) : expr (.member s e attr)
    = .member (s.respan offset) (expr e) (ident attr) := by simp
  subscript (s e i) : expr (.subscript s e i) = .subscript (s.respan offset) (expr e) (expr i) := by
    simp
  slice (s l u t) : expr (.slice s l u t)
    = .slice (s.respan offset) (l.map expr) (u.map expr) (t.map expr) := by simp
  starred (s e) : expr (.starred s e) = .starred (s.respan offset) (expr e) := by simp
  list (s es) : expr (.list s es) = .list (s.respan offset) (es.map expr) := by simp
  tuple (s es) : expr (.tuple s es) = .tuple (s.respan offset) (es.map expr) := by simp
  set (s es) : expr (.set s es) = .set (s.respan offset) (es.map expr) := by simp
  dict (s is) : expr (.dict s is) = .dict (s.respan offset) (is.map item) := by simp
  listComp (s e cs) :
    expr (.listComp s e cs) = .listComp (s.respan offset) (expr e) (cs.map clause) := by simp
  setComp (s e cs) :
    expr (.setComp s e cs) = .setComp (s.respan offset) (expr e) (cs.map clause) := by simp
  generator (s e cs) :
    expr (.generator s e cs) = .generator (s.respan offset) (expr e) (cs.map clause) := by simp
  dictComp (s k v cs) :
    expr (.dictComp s k v cs) = .dictComp (s.respan offset) (expr k) (expr v) (cs.map clause) := by
    simp
  await (s e) : expr (.await s e) = .await (s.respan offset) (expr e) := by simp
  yield (s e) : expr (.yield s e) = .yield (s.respan offset) (e.map expr) := by simp
  yieldFrom (s e) : expr (.yieldFrom s e) = .yieldFrom (s.respan offset) (expr e) := by simp
  param_mk (id k h d s) :
    param ⟨id, k, h, d, s⟩ = ⟨ident id, k, h.map expr, d.map expr, s.respan offset⟩ := by simp
  keyword_mk (arg e) : keyword ⟨arg, e⟩ = ⟨arg.map ident, expr e⟩ := by simp
  item_mk (k v) : item ⟨k, v⟩ = ⟨k.map expr, expr v⟩ := by simp
  clause_mk (t i cs a) : clause ⟨t, i, cs, a⟩ = ⟨expr t, expr i, cs.map expr, a⟩ := by simp
  imported_mk (id as) : imported ⟨id, as⟩ = ⟨dotted id, as.map ident⟩ := by simp
  withItem_mk (c v) : withItem ⟨c, v⟩ = ⟨expr c, v.map expr⟩ := by simp
  typeParam_mk (id b s) : typeParam ⟨id, b, s⟩ = ⟨ident id, b.map expr, s.respan offset⟩ := by simp
  exprStmt (s e) : stmt (.expr s e) = .expr (s.respan offset) (expr e) := by simp
  assign (s ts v) : stmt (.assign s ts v)
    = .assign (s.respan offset) (ts.map expr) (expr v) := by simp
  augAssign (s t op v) :
    stmt (.augAssign s t op v) = .augAssign (s.respan offset) (expr t) op (expr v) := by simp
  annAssign (s t h v) : stmt (.annAssign s t h v)
    = .annAssign (s.respan offset) (expr t) (expr h) (v.map expr) := by simp
  pass_ (s) : stmt (.pass_ s) = .pass_ (s.respan offset) := by simp
  break_ (s) : stmt (.break_ s) = .break_ (s.respan offset) := by simp
  continue_ (s) : stmt (.continue_ s) = .continue_ (s.respan offset) := by simp
  return_ (s v) : stmt (.return_ s v) = .return_ (s.respan offset) (v.map expr) := by simp
  raise_ (s e c) : stmt (.raise_ s e c) = .raise_ (s.respan offset) (e.map expr) (c.map expr) := by
    simp
  delete_ (s ts) : stmt (.delete_ s ts) = .delete_ (s.respan offset) (ts.map expr) := by simp
  assert_ (s t m) : stmt (.assert_ s t m)
    = .assert_ (s.respan offset) (expr t) (m.map expr) := by simp
  global_ (s ids) : stmt (.global_ s ids) = .global_ (s.respan offset) (ids.map ident) := by simp
  nonlocal_ (s ids) : stmt (.nonlocal_ s ids) = .nonlocal_ (s.respan offset) (ids.map ident) := by
    simp
  import_ (s as) : stmt (.import_ s as) = .import_ (s.respan offset) (as.map imported) := by simp
  importFrom (s m l as) : stmt (.importFrom s m l as)
    = .importFrom (s.respan offset) (m.map dotted) l (as.map imported) := by simp
  if_ (s t b e) :
    stmt (.if_ s t b e) = .if_ (s.respan offset) (expr t) (b.map stmt) (e.map stmt) := by simp
  while_ (s t b e) :
    stmt (.while_ s t b e) = .while_ (s.respan offset) (expr t) (b.map stmt) (e.map stmt) := by simp
  for_ (s t i b e a) : stmt (.for_ s t i b e a)
    = .for_ (s.respan offset) (expr t) (expr i) (b.map stmt) (e.map stmt) a := by simp
  try_ (s b hs e f) : stmt (.try_ s b hs e f)
    = .try_ (s.respan offset) (b.map stmt) (hs.map handler) (e.map stmt) (f.map stmt) := by simp
  with_ (s is b a) :
    stmt (.with_ s is b a) = .with_ (s.respan offset) (is.map withItem) (b.map stmt) a := by simp
  match_ (s e cs) : stmt (.match_ s e cs)
    = .match_ (s.respan offset) (expr e) (cs.map matchCase) := by simp
  typeAlias (s n ps v) : stmt (.typeAlias s n ps v)
    = .typeAlias (s.respan offset) (expr n) (ps.map typeParam) (expr v) := by simp
  function (s d) : stmt (.function s d) = .function (s.respan offset) (functionDef d) := by simp
  class_ (s d) : stmt (.class_ s d) = .class_ (s.respan offset) (classDef d) := by simp
  handler_mk (t star id b s) : handler ⟨t, star, id, b, s⟩
    = ⟨t.map expr, star, id.map ident, b.map stmt, s.respan offset⟩ := by simp
  matchCase_mk (p i g b s) : matchCase ⟨p, i, g, b, s⟩
    = ⟨expr p, i.map expr, g.map expr, b.map stmt, s.respan offset⟩ := by simp
  functionDef_mk (id ts ps r b ds a) : functionDef ⟨id, ts, ps, r, b, ds, a⟩
    = ⟨ident id, ts.map typeParam, ps.map param, r.map expr, b.map stmt, ds.map expr, a⟩ := by simp
  classDef_mk (id ts es ks b ds) : classDef ⟨id, ts, es, ks, b, ds⟩
    = ⟨ident id, ts.map typeParam, es.map expr, ks.map keyword, b.map stmt, ds.map expr⟩ := by simp

namespace Recast

attribute [simp] name constant string boolOp binOp unaryOp compare lambda conditional named call
  member subscript slice starred list tuple set dict listComp setComp generator dictComp await
  yield yieldFrom param_mk keyword_mk item_mk clause_mk imported_mk withItem_mk typeParam_mk
  exprStmt assign augAssign annAssign pass_ break_ continue_ return_ raise_ delete_ assert_
  global_ nonlocal_ import_ importFrom if_ while_ for_ try_ with_ match_ typeAlias function class_
  handler_mk matchCase_mk functionDef_mk classDef_mk

/-- Moving the spans of a tree. -/
def respan (u : Nat → Nat) : Recast where
  offset := u
  ident := id
  dotted := id
  expr := Expr.respan u
  param := Param.respan u
  keyword := KeywordArg.respan u
  item := DictItem.respan u
  clause := Comprehension.respan u
  imported := id
  withItem := WithItem.respan u
  typeParam := TypeParam.respan u
  stmt := Stmt.respan u
  handler := Handler.respan u
  matchCase := MatchCase.respan u
  functionDef := FunctionDef.respan u
  classDef := ClassDef.respan u

/-- Giving other names to a tree. -/
def rename (f : String → String) : Recast where
  offset := id
  ident := f
  dotted := renameDotted f
  expr := Expr.rename f
  param := Param.rename f
  keyword := KeywordArg.rename f
  item := DictItem.rename f
  clause := Comprehension.rename f
  imported := Alias.rename f
  withItem := WithItem.rename f
  typeParam := TypeParam.rename f
  stmt := Stmt.rename f
  handler := Handler.rename f
  matchCase := MatchCase.rename f
  functionDef := FunctionDef.rename f
  classDef := ClassDef.rename f
  imported_mk _ _ := rfl
  withItem_mk _ _ := rfl
  typeParam_mk _ _ _ := rfl

/-- Leaving a tree as it is. -/
def same : Recast where
  offset := id
  ident := id
  dotted := id
  expr := id
  param := id
  keyword := id
  item := id
  clause := id
  imported := id
  withItem := id
  typeParam := id
  stmt := id
  handler := id
  matchCase := id
  functionDef := id
  classDef := id

@[simp] theorem span_expr (m : Recast) (e : Expr) : e.span.respan m.offset = (m.expr e).span := by
  cases e <;> simp [Expr.span]

theorem span_stmt (m : Recast) (s : Stmt) : (m.stmt s).span = s.span.respan m.offset := by
  cases s <;> simp [Stmt.span]

end Recast

end Scrutiny
