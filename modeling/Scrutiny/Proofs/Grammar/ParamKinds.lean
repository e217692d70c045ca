/-
The kinds of parameters in a list that is written in order.

Such a list has up to five sections: parameters before a `/`, ordinary ones, `*` or
`*args`, parameters behind it, and `**kwargs`.  Kinds are given in one pass that knows
only whether a `/` is still ahead and whether a star has gone by, and within a section
neither changes.  So a section gets one kind (`assignKinds_plain`), and the list is
resolved section by section.
-/
import Scrutiny.Grammar.Param

namespace Scrutiny

/-- The parameter with another kind, and nothing else changed. -/
def Param.withKind (kind : ParamKind) (p : Param) : Param := { p with kind }

/-- A parameter that no star marks, before it is given its kind. -/
def Param.IsPlain (p : Param) : Prop := p.kind = .normal

/-- What the parameters passed by keyword only stand behind: `*` or `*args`. -/
inductive StarPart where
  | bare
  | args (param : Param) (marked : param.kind = .varArgs)

namespace StarPart

/-- The star part as an item of a list. -/
def item : StarPart → ParamItem
  | bare => .star
  | args p _ => .param p

/-- The parameter that the star part declares, if it declares one. -/
def params : StarPart → List Param
  | bare => []
  | args p _ => [p]

end StarPart

/-- A parameter list in order, section by section. -/
structure Signature where
  positional : List Param
  normal : List Param
  star : Option StarPart
  keyword : List Param
  /-- `**kwargs` -/
  rest : Option Param
  positional_plain : ∀ p ∈ positional, p.IsPlain
  normal_plain : ∀ p ∈ normal, p.IsPlain
  keyword_plain : ∀ p ∈ keyword, p.IsPlain
  /-- Nothing is passed by keyword only unless a star says so. -/
  keyword_starred : keyword ≠ [] → star ≠ none
  rest_marked : ∀ p ∈ rest, p.kind = .kwArgs

namespace Signature

/-- The list as it is written.  The marker `/` stands only behind something. -/
def items (s : Signature) : List ParamItem :=
  s.positional.map .param ++ (if s.positional.isEmpty then [] else [.slash]) ++
    s.normal.map .param ++ s.star.toList.map StarPart.item ++ s.keyword.map .param ++
    s.rest.toList.map .param

/-- The parameters that the list declares, in order, each with the kind of its section. -/
def params (s : Signature) : List Param :=
  s.positional.map (·.withKind .positionalOnly) ++ s.normal.map (·.withKind .normal) ++
    s.star.toList.flatMap StarPart.params ++ s.keyword.map (·.withKind .keywordOnly) ++
    s.rest.toList

end Signature

/-! ### One section at a time -/

/-- The kind of a plain parameter, from what is ahead and what has gone by. -/
def plainKind (slashAhead afterStar : Bool) : ParamKind :=
  if slashAhead then .positionalOnly else if afterStar then .keywordOnly else .normal

variable {slashAhead afterStar : Bool} {ps : List Param} {items : List ParamItem}

/-- Plain parameters change neither what is ahead nor what has gone by. -/
theorem assignKinds_plain (h : ∀ p ∈ ps, p.IsPlain) :
    assignKinds slashAhead afterStar (ps.map .param ++ items)
      = ps.map (·.withKind (plainKind slashAhead afterStar))
        ++ assignKinds slashAhead afterStar items := by
  induction ps with
  | nil => rfl
  | cons p ps ih =>
    obtain ⟨name, kind, hint, default, span⟩ := p
    obtain rfl : kind = .normal := h _ List.mem_cons_self
    simp only [List.map_cons, List.cons_append, assignKinds]
    rw [ih fun p hp => h p (List.mem_cons_of_mem _ hp)]
    rfl

theorem assignKinds_star (part : StarPart) : assignKinds slashAhead afterStar (part.item :: items)
      = part.params ++ assignKinds slashAhead true items := by
  cases part with
  | bare => rfl
  | args p marked =>
    simp only [StarPart.item, StarPart.params, assignKinds, marked, List.singleton_append]

theorem assignKinds_rest {rest : Option Param} (h : ∀ p ∈ rest, p.kind = .kwArgs) :
    assignKinds slashAhead afterStar (rest.toList.map .param) = rest.toList := by
  cases rest with
  | none => rfl
  | some p => simp only [Option.toList_some, List.map_cons, List.map_nil, assignKinds, h p rfl]

namespace Signature

/-- From the star on, everything plain is passed by keyword only. -/
theorem assignKinds_tail (s : Signature) :
    assignKinds false false (s.star.toList.map StarPart.item ++ s.keyword.map .param
        ++ s.rest.toList.map .param)
      = s.star.toList.flatMap StarPart.params ++ s.keyword.map (·.withKind .keywordOnly)
        ++ s.rest.toList := by
  cases hstar : s.star with
  | none =>
    have hkeyword : s.keyword = [] :=
      Decidable.byContradiction fun hne => s.keyword_starred hne hstar
    simpa [hkeyword] using assignKinds_rest s.rest_marked
  | some part =>
    simp only [Option.toList_some, List.map_cons, List.map_nil, List.cons_append, List.nil_append,
      List.flatMap_cons, List.flatMap_nil, List.append_nil, List.append_assoc]
    rw [assignKinds_star, assignKinds_plain s.keyword_plain, assignKinds_rest s.rest_marked]
    rfl

theorem any_isSlash_items (s : Signature) :
    s.items.any ParamItem.isSlash = !s.positional.isEmpty := by
  have hparams : ∀ ps : List Param, (ps.map .param).any ParamItem.isSlash = false := by
    simp [ParamItem.isSlash]
  have hstar : (s.star.toList.map StarPart.item).any ParamItem.isSlash = false := by
    rcases s.star with _ | _ | _
    · rfl
    · rfl
    · rfl
  simp only [items, List.any_append, hparams, hstar, Bool.or_false, Bool.false_or]
  cases s.positional.isEmpty with
  | true => rfl
  | false => rfl

end Signature

/-- **A list in order is resolved to its parameters in order**, those of each section with the
kind of the section and otherwise as they were. -/
theorem resolveParams_signature (s : Signature) : resolveParams s.items = s.params := by
  rw [resolveParams, s.any_isSlash_items]
  simp only [Signature.items, Signature.params, List.append_assoc]
  have htail := s.assignKinds_tail
  simp only [List.append_assoc] at htail
  rw [assignKinds_plain s.positional_plain]
  cases hempty : s.positional.isEmpty with
  | true =>
    -- Nothing stands before a `/`, so there is none, and none is expected.
    simp only [Bool.not_true, if_true, List.nil_append]
    rw [assignKinds_plain s.normal_plain, htail, List.isEmpty_iff.mp hempty]
    rfl
  | false =>
    simp only [Bool.not_false, Bool.false_eq_true, if_false, List.cons_append, List.nil_append,
      assignKinds]
    rw [assignKinds_plain s.normal_plain, htail]
    rfl

/-- `a, /, b, *args, c, **kw`, a list with every section. -/
def Signature.full : Signature where
  positional := [⟨"a", .normal, none, none, ⟨0, 1⟩⟩]
  normal := [⟨"b", .normal, none, none, ⟨6, 7⟩⟩]
  star := some (.args ⟨"args", .varArgs, none, none, ⟨9, 14⟩⟩ rfl)
  keyword := [⟨"c", .normal, none, none, ⟨16, 17⟩⟩]
  rest := some ⟨"kw", .kwArgs, none, none, ⟨19, 23⟩⟩
  positional_plain := by simp [Param.IsPlain]
  normal_plain := by simp [Param.IsPlain]
  keyword_plain := by simp [Param.IsPlain]
  keyword_starred := by simp
  rest_marked := by simp

theorem resolveParams_signature_full : Signature.full.items.length = 6 ∧
    (resolveParams Signature.full.items).map (fun p => (p.name, p.kind)) = [("a", .positionalOnly),
      ("b", .normal), ("args", .varArgs), ("c", .keywordOnly), ("kw", .kwArgs)] := by
  rw [resolveParams_signature]
  exact ⟨rfl, rfl⟩

end Scrutiny
