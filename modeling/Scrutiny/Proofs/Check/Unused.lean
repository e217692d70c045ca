/-
Which names are reported as unused.

A name is reported if something in the tree assigns it, nothing reads it, and it does not
begin with an underscore (`unused_names_exact`).  What assigns and what reads is said here
of the tree (`Module.Assigns`, `Module.Reads`); that the check finds all of it, and nothing
else, rests on what is known of a traversal: it meets every node, and it visits an
expression as a value just where it stands as one.
-/
import Scrutiny.Proofs.Check.Names
import Scrutiny.Proofs.Grammar.StmtShape
import Scrutiny.Proofs.Syntax.Deliveries
import Scrutiny.Proofs.Syntax.Fields

namespace Scrutiny

variable {module : Module}

/-! ### Names in targets -/

/-- A target takes a name: it is the name, or takes it through tuples, lists and stars. -/
inductive Expr.Takes (id : String) : Expr → Prop
  | name (span : Span) : Takes id (.name span id)
  | tuple (span : Span) {elts : List Expr} {e : Expr} (he : e ∈ elts) (h : e.Takes id) :
      Takes id (.tuple span elts)
  | list (span : Span) {elts : List Expr} {e : Expr} (he : e ∈ elts) (h : e.Takes id) :
      Takes id (.list span elts)
  | starred (span : Span) {value : Expr} (h : value.Takes id) : Takes id (.starred span value)

/-- From left to right, a target takes a name first at an offset. -/
inductive Expr.TakesFirst (id : String) : Expr → Nat → Prop
  | name (span : Span) : TakesFirst id (.name span id) span.start
  | tuple (span : Span) {before after : List Expr} {e : Expr} {offset : Nat}
      (hbefore : ∀ b ∈ before, ¬ b.Takes id) (h : e.TakesFirst id offset) :
      TakesFirst id (.tuple span (before ++ e :: after)) offset
  | list (span : Span) {before after : List Expr} {e : Expr} {offset : Nat}
      (hbefore : ∀ b ∈ before, ¬ b.Takes id) (h : e.TakesFirst id offset) :
      TakesFirst id (.list span (before ++ e :: after)) offset
  | starred (span : Span) {value : Expr} {offset : Nat} (h : value.TakesFirst id offset) :
      TakesFirst id (.starred span value) offset

theorem targetNamesAll_eq (es : List Expr) : targetNamesAll es = es.flatMap Expr.targetNames := by
  induction es with
  | nil => rfl
  | cons e es ih => rw [targetNamesAll, ih, List.flatMap_cons]

variable {id : String}

/-- The names of a target are those it takes. -/
theorem Expr.mem_targetNames {e : Expr} : id ∈ e.targetNames.map Prod.fst ↔ e.Takes id := by
  have helts {elts : List Expr} (h : id ∈ (targetNamesAll elts).map Prod.fst)
      (hbelow : ∀ e ∈ elts, id ∈ e.targetNames.map Prod.fst → e.Takes id) :
      ∃ e ∈ elts, e.Takes id := by
    rw [targetNamesAll_eq, List.map_flatMap] at h
    obtain ⟨e, he, hid⟩ := List.mem_flatMap.mp h
    exact ⟨e, he, hbelow e he hid⟩
  constructor
  · intro h
    cases e with
    | name span other =>
      obtain rfl : id = other := by simpa [Expr.targetNames] using h
      exact .name span
    | tuple span elts =>
      obtain ⟨e, he, htakes⟩ := helts h fun e he => Expr.mem_targetNames.mp
      exact .tuple span he htakes
    | list span elts =>
      obtain ⟨e, he, htakes⟩ := helts h fun e he => Expr.mem_targetNames.mp
      exact .list span he htakes
    | starred span value => exact .starred span (Expr.mem_targetNames.mp h)
    | _ => simp [Expr.targetNames] at h
  · intro h
    induction h with
    | name span => simp [Expr.targetNames]
    | tuple span he _ ih | list span he _ ih =>
      rw [Expr.targetNames, targetNamesAll_eq, List.map_flatMap]
      exact List.mem_flatMap.mpr ⟨_, he, ih⟩
    | starred span _ ih => exact ih
termination_by sizeOf e

theorem Expr.find?_targetNames_none {e : Expr} (h : e.targetNames.find? (·.1 == id) = none) :
    ¬ e.Takes id := by
  rw [← Expr.mem_targetNames, List.mem_map]
  rintro ⟨report, hreport, rfl⟩
  simpa using List.find?_eq_none.mp h report hreport

/-- Of some targets in a row, the first with the name is the one that it is found in. -/
theorem split_of_find? {es : List Expr} {report : String × Nat}
    (h : (es.flatMap Expr.targetNames).find? (·.1 == id) = some report) :
    ∃ before e after, es = before ++ e :: after ∧ (∀ b ∈ before, ¬ b.Takes id) ∧
      e.targetNames.find? (·.1 == id) = some report := by
  rw [List.find?_flatMap] at h
  obtain ⟨before, e, after, hes, he, hbefore⟩ := List.findSome?_eq_some_iff.mp h
  exact ⟨before, e, after, hes, fun b hb => Expr.find?_targetNames_none (hbefore b hb), he⟩

theorem Expr.takesFirst_of_find? {e : Expr} {report : String × Nat}
    (h : e.targetNames.find? (·.1 == id) = some report) : e.TakesFirst id report.2 := by
  cases e with
  | name span other =>
    obtain ⟨rfl, rfl⟩ : other = id ∧ (other, span.start) = report := by
      simpa [Expr.targetNames] using h
    exact .name span
  | tuple span elts =>
    rw [Expr.targetNames, targetNamesAll_eq] at h
    obtain ⟨before, e, after, helts, hbefore, he⟩ := split_of_find? h
    have hmem : e ∈ elts := by simp [helts]
    rw [helts]
    exact .tuple span hbefore (Expr.takesFirst_of_find? he)
  | list span elts =>
    rw [Expr.targetNames, targetNamesAll_eq] at h
    obtain ⟨before, e, after, helts, hbefore, he⟩ := split_of_find? h
    have hmem : e ∈ elts := by simp [helts]
    rw [helts]
    exact .list span hbefore (Expr.takesFirst_of_find? he)
  | starred span value => exact .starred span (Expr.takesFirst_of_find? h)
  | _ => simp [Expr.targetNames] at h
termination_by sizeOf e

/-! ### Assignments -/

/-- The targets that a node assigns to. -/
def Node.assignedTargets : Node → List Expr
  | .stmt (.assign _ targets _) => targets
  | .stmt (.annAssign _ target _ (some _)) => [target]
  | .expr (.named _ target _) => [target]
  | _ => []

/-- The targets that are assigned to at a visit. -/
def Visit.assignedTargets : Visit → List Expr
  | .enter s => (Node.stmt s).assignedTargets
  | .expr .value e => (Node.expr e).assignedTargets
  | _ => []

/-- The targets that a module assigns to, in order of visit. -/
def Module.assignedTargets (module : Module) : List Expr :=
  module.visits.flatMap Visit.assignedTargets

/-- Somewhere in its tree a module assigns the name. -/
def Module.Assigns (module : Module) (id : String) : Prop :=
  ∃ n, module.Has n ∧ ∃ target ∈ n.assignedTargets, target.Takes id

/-- In order of visit, a module assigns the name first at an offset. -/
def Module.AssignsFirst (module : Module) (id : String) (offset : Nat) : Prop :=
  ∃ before target after, module.assignedTargets = before ++ target :: after ∧
    (∀ b ∈ before, ¬ b.Takes id) ∧ target.TakesFirst id offset

theorem Visit.assigned_eq (v : Visit) :
    v.assigned = v.assignedTargets.flatMap Expr.targetNames := by
  cases v with
  | enter s =>
    cases s with
    | assign span targets value => exact targetNamesAll_eq targets
    | annAssign span target hint value =>
      cases value <;> simp [Visit.assigned, Visit.assignedTargets, Node.assignedTargets]
    | _ => rfl
  | expr role e =>
    cases role with
    | value => cases e <;> simp [Visit.assigned, Visit.assignedTargets, Node.assignedTargets]
    | _ => rfl
  | _ => rfl

theorem Module.has_of_mem_visits {v : Visit} (hv : v ∈ module.visits) : module.Has v.node := by
  have hvisits :=
    blockVisits_inside module.hereditary_has (fun _ => true) module.body module.body_has
  exact List.forall_iff_forall_mem.mp hvisits v hv

/-- A traversal comes to all assignments. -/
theorem Module.mem_assignedTargets {target : Expr} :
    target ∈ module.assignedTargets ↔ ∃ n, module.Has n ∧ target ∈ n.assignedTargets := by
  rw [Module.assignedTargets, List.mem_flatMap]
  constructor
  · rintro ⟨v, hv, htarget⟩
    refine ⟨v.node, Module.has_of_mem_visits hv, ?_⟩
    cases v with
    | enter s => exact htarget
    | expr role e =>
      cases role with
      | value => exact htarget
      | _ => cases htarget
    | _ => cases htarget
  · rintro ⟨n, hn, htarget⟩
    cases n with
    | stmt s => exact ⟨.enter s, hn.enter_mem_visits, htarget⟩
    | expr e =>
      refine ⟨.expr .value e, hn.value_mem_visits fun role hrole => ?_, htarget⟩
      cases e with
      | named span t value => exact Expr.inner_of_targets (List.mem_singleton.mpr rfl) hrole
      | _ => cases htarget
    | _ => cases htarget

/-- The names that are met being assigned are those of the targets assigned to. -/
theorem Module.assigned_eq (module : Module) :
    module.visits.flatMap Visit.assigned = module.assignedTargets.flatMap Expr.targetNames := by
  rw [Module.assignedTargets, List.flatMap_assoc]
  exact List.flatMap_congr fun v _ => v.assigned_eq

theorem Module.mem_assigned :
    id ∈ (module.visits.flatMap Visit.assigned).map Prod.fst ↔ module.Assigns id := by
  rw [Module.assigned_eq, List.map_flatMap, List.mem_flatMap]
  simp only [Expr.mem_targetNames, Module.mem_assignedTargets, Module.Assigns]
  constructor
  · rintro ⟨target, ⟨n, hn, htarget⟩, htakes⟩
    exact ⟨n, hn, target, htarget, htakes⟩
  · rintro ⟨n, hn, target, htarget, htakes⟩
    exact ⟨target, ⟨n, hn, htarget⟩, htakes⟩

theorem Module.assignsFirst_of_find? {report : String × Nat}
    (h : (module.visits.flatMap Visit.assigned).find? (·.1 == id) = some report) :
    module.AssignsFirst id report.2 := by
  rw [Module.assigned_eq] at h
  obtain ⟨before, target, after, htargets, hbefore, htarget⟩ := split_of_find? h
  exact ⟨before, target, after, htargets, hbefore, Expr.takesFirst_of_find? htarget⟩

/-! ### Reads -/

/-- Somewhere in its tree a module reads the name. -/
inductive Module.Reads (module : Module) (id : String) : Prop
  /-- The name stands where a value is wanted. -/
  | value {place : Place} {span : Span}
      (h : module.placedAt? place = some (.value, .expr (.name span id)))
  /-- The name is what an augmented assignment changes. -/
  | changed {span target : Span} {op : BinOp} {value : Expr}
      (h : module.Has (.stmt (.augAssign span (.name target id) op value)))
  /-- The name is what a field of a formatted string opens with. -/
  | field {span : Span} {literal : StringLiteral} {part : String}
      (h : module.Has (.expr (.string span literal))) (hpart : part ∈ literal.parts)
      (hreads : PartReads part id)

/-- A name is visited as a value just where it stands as one. -/
theorem Module.name_mem_visits {span : Span} : .expr .value (.name span id) ∈ module.visits
      ↔ ∃ place, module.placedAt? place = some (.value, .expr (.name span id)) := by
  have hagain (own : Role) : (Expr.name span id).again? own ≠ some .value := by
    cases own <;> simp [Expr.again?, Expr.isAssignable]
  rw [Module.mem_visits_iff]
  constructor
  · rintro ⟨place, own, hown, rfl | hrole⟩
    · exact ⟨place, hown⟩
    · exact absurd hrole (hagain own)
  · rintro ⟨place, hplace⟩
    exact ⟨place, .value, hplace, .inl rfl⟩

/-- **A traversal of a parsed module comes to all reads.** -/
theorem Module.mem_read (hstrings : ∀ n, module.Has n → n.AsWritten) :
    id ∈ module.visits.flatMap Visit.read ↔ module.Reads id := by
  rw [List.mem_flatMap]
  constructor
  · rintro ⟨v, hv, hid⟩
    have hhas := Module.has_of_mem_visits hv
    unfold Visit.read at hid
    split at hid
    · cases List.mem_singleton.mp hid
      exact .changed hhas
    · cases List.mem_singleton.mp hid
      obtain ⟨place, hplace⟩ := Module.name_mem_visits.mp hv
      exact .value hplace
    · obtain ⟨part, hpart, hreads⟩ := (mem_fields (hstrings _ hhas)).mp hid
      exact .field hhas hpart hreads
    · cases hid
  · rintro (⟨h⟩ | ⟨h⟩ | ⟨h, hpart, hreads⟩)
    · exact ⟨_, Module.name_mem_visits.mpr ⟨_, h⟩, List.mem_singleton.mpr rfl⟩
    · exact ⟨_, h.enter_mem_visits, List.mem_singleton.mpr rfl⟩
    · refine ⟨_, h.value_mem_visits fun role hrole => ?_,
        (mem_fields (hstrings _ h)).mpr ⟨_, hpart, hreads⟩⟩
      cases role with
      | value => exact absurd rfl hrole
      | target | pattern => rfl

/-! ### Reports -/

theorem startsWith_underscore : id.startsWith "_" = true ↔ id.toList.head? = some '_' := by
  rw [String.startsWith_string_iff]
  cases id.toList with
  | nil => decide
  | cons c cs => simp [eq_comm]

/-- **Unused names are those assigned and nowhere read.**  A parsed module has a name reported
if and only if an assignment in its tree takes it, be it in a statement with a value or in an
expression, the name does not begin with an underscore, and nothing in the tree reads it: no
name where a value stands, no augmented assignment and no field of a formatted string.  Each
name is reported once, where it is first assigned. -/
theorem unused_names_exact {source : String} {module : Module} (h : parse source = .ok module) :
    (∀ id, id ∈ module.unusedNames.map Prod.fst
      ↔ module.Assigns id ∧ id.toList.head? ≠ some '_' ∧ ¬ module.Reads id) ∧
      (module.unusedNames.map Prod.fst).Nodup ∧
      ∀ report ∈ module.unusedNames, module.AssignsFirst report.1 report.2 := by
  have hreads (id : String) : id ∈ module.visits.flatMap Visit.read ↔ module.Reads id :=
    Module.mem_read fun n hn => parse_asWritten h hn
  have hreport {report : String × Nat} : report ∈ module.unusedNames ↔
      report ∈ (module.visits.flatMap Visit.assigned).eraseDupsBy (·.1 == ·.1) ∧
        ¬ module.Reads report.1 ∧ report.1.toList.head? ≠ some '_' := by
    rw [Module.unusedNames, List.mem_filter, ← hreads, Ne, ← startsWith_underscore]
    simp
  refine ⟨fun id => ?_, ?_, ?_⟩
  · have hassigns : module.Assigns id
        ↔ id ∈ ((module.visits.flatMap Visit.assigned).eraseDupsBy (·.1 == ·.1)).map Prod.fst :=
      (mem_map_eraseDupsBy.trans Module.mem_assigned).symm
    rw [hassigns, List.mem_map, List.mem_map]
    constructor
    · rintro ⟨report, hmem, rfl⟩
      obtain ⟨hassigned, hread, hname⟩ := hreport.mp hmem
      exact ⟨⟨report, hassigned, rfl⟩, hname, hread⟩
    · rintro ⟨⟨report, hassigned, rfl⟩, hname, hread⟩
      exact ⟨report, hreport.mpr ⟨hassigned, hread, hname⟩, rfl⟩
  · exact (nodup_eraseDupsBy _).sublist (List.filter_sublist.map _)
  · intro report hmem
    exact Module.assignsFirst_of_find? (mem_eraseDupsBy_iff.mp (hreport.mp hmem).1)

/-- Of the names assigned here, one is read by a field and one changed; a third is not for
reading. -/
theorem unused_names_exact_nested : ∃ module,
    parse "a, [*b, _c] = (d := 1)\nb += 1\na = f'\x7b d \x7d'\n" = .ok module ∧
      module.unusedNames = [("a", 0)] ∧
      (∀ id, id ∈ module.unusedNames.map Prod.fst
        ↔ module.Assigns id ∧ id.toList.head? ≠ some '_' ∧ ¬ module.Reads id) ∧
      (module.unusedNames.map Prod.fst).Nodup ∧
      ∀ report ∈ module.unusedNames, module.AssignsFirst report.1 report.2 := by
  generalize hsource : "a, [*b, _c] = (d := 1)\nb += 1\na = f'\x7b d \x7d'\n" = source
  have hok : (parse source).toOption.map Module.unusedNames = some [("a", 0)] := by
    rw [← hsource]
    decide +kernel
  cases hparse : parse source with
  | error errors => simp [hparse, Except.toOption] at hok
  | ok module =>
    obtain hnames : module.unusedNames = [("a", 0)] := by simpa [hparse, Except.toOption] using hok
    exact ⟨module, rfl, hnames, unused_names_exact hparse⟩

end Scrutiny
