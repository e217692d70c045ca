/-
Which names are reported as undefined.

The report is a function of what happens to names on a walk through the module
(`NameEvent.unbound`): a name is reported if it is loaded somewhere with no binding before
(`Reports`).  Two sequences of events can be compared by the names that are bound in one
and not in the other (`unbound_filter`), and an import at top level, hoisted to the front,
is such a difference.
-/
import Scrutiny.Proofs.Check.NameWalk

namespace Scrutiny

open NameEvent NameWalk

variable {bound : List String} {event : NameEvent} {events : List NameEvent} {names : List Alias}

/-! ### What is reported -/

/-- Somewhere in the sequence the name is loaded, and before that nothing binds it. -/
def LoadedUnbound (events : List NameEvent) (name : String) : Prop :=
  ∃ before offset after, events = before ++ .load name offset :: after ∧ .bind name ∉ before

/-- Whether an event loads the name. -/
def NameEvent.isLoadOf (name : String) : NameEvent → Bool
  | .load other _ => other == name
  | _ => false

/-- Where in the sequence the name is loaded for the first time. -/
def firstLoad (events : List NameEvent) (name : String) : Nat := events.findIdx (isLoadOf name)

/-- The report says of a sequence of events which names are loaded unbound, and where first. -/
structure Reports (events : List NameEvent) (found : List (String × Nat)) : Prop where
  exact : ∀ name, name ∈ found.map Prod.fst ↔ LoadedUnbound events name
  once : (found.map Prod.fst).Nodup
  offset : ∀ report ∈ found, events[firstLoad events report.1]? = some (.load report.1 report.2)
  order : found.Pairwise fun a b => firstLoad events a.1 < firstLoad events b.1

section

variable {name other : String} {events : List NameEvent}

@[simp] theorem not_loadedUnbound_nil : ¬ LoadedUnbound [] name := by
  rintro ⟨before, offset, after, h, -⟩
  cases before <;> cases h

/-- An event that neither loads the name nor binds it makes no difference. -/
theorem loadedUnbound_cons (hload : event.isLoadOf name = false) (hbind : event ≠ .bind name) :
    LoadedUnbound (event :: events) name ↔ LoadedUnbound events name := by
  constructor
  · rintro ⟨before, offset, after, h, hbefore⟩
    cases before with
    | nil =>
      cases h
      simp [isLoadOf] at hload
    | cons first before =>
      obtain ⟨-, rfl⟩ := List.cons.inj h
      exact ⟨before, offset, after, rfl, fun h => hbefore (.tail _ h)⟩
  · rintro ⟨before, offset, after, rfl, hbefore⟩
    exact ⟨event :: before, offset, after, rfl, by simp [hbind.symm, hbefore]⟩

theorem loadedUnbound_bind :
    LoadedUnbound (.bind other :: events) name ↔ other ≠ name ∧ LoadedUnbound events name := by
  by_cases h : other = name
  · subst h
    refine ⟨?_, fun h => absurd rfl h.1⟩
    rintro ⟨before, offset, after, h, hbefore⟩
    cases before with
    | nil => cases h
    | cons first before =>
      obtain ⟨rfl, -⟩ := List.cons.inj h
      exact absurd (List.mem_cons_self ..) hbefore
  · rw [loadedUnbound_cons rfl (by simpa using h)]
    exact (and_iff_right h).symm

theorem loadedUnbound_load {offset : Nat} :
    LoadedUnbound (.load other offset :: events) name ↔
      other = name ∨ LoadedUnbound events name := by
  by_cases h : other = name
  · subst h
    exact ⟨fun _ => .inl rfl, fun _ => ⟨[], offset, events, rfl, List.not_mem_nil⟩⟩
  · rw [loadedUnbound_cons (by simpa [isLoadOf] using h) (by simp)]
    exact (or_iff_right h).symm

theorem loadedUnbound_later {body : List Stmt} :
    LoadedUnbound (.later body :: events) name ↔ LoadedUnbound events name :=
  loadedUnbound_cons rfl (by simp)

theorem firstLoad_cons (h : event.isLoadOf name = false) :
    firstLoad (event :: events) name = firstLoad events name + 1 := by
  rw [firstLoad, List.findIdx_cons, h]
  rfl

end

namespace NameEvent

variable {bound seen : List String}

/-- What is reported is loaded unbound, and neither bound nor reported from the start. -/
theorem mem_unbound_iff {name : String} : name ∈ (unbound bound seen events).map Prod.fst
      ↔ name ∉ bound ∧ name ∉ seen ∧ LoadedUnbound events name := by
  induction events generalizing bound seen with
  | nil => simp [unbound]
  | cons event events ih =>
    cases event with
    | bind other =>
      rw [unbound, ih, loadedUnbound_bind, List.mem_cons]
      tauto
    | load other offset =>
      rw [unbound, loadedUnbound_load]
      split
      case isTrue h =>
        rw [ih]
        simp only [Bool.or_eq_true, List.contains_iff_mem] at h
        have hne : name ∉ bound → name ∉ seen → other ≠ name := by
          rintro hbound hseen rfl
          exact h.elim hbound hseen
        tauto
      case isFalse h =>
        rw [List.map_cons, List.mem_cons, ih]
        simp only [Bool.or_eq_true, List.contains_iff_mem, not_or] at h
        by_cases hname : name = other
        · subst hname
          simpa using h
        · simp [hname, Ne.symm hname]
    | later body => rw [unbound, ih, loadedUnbound_later]

/-- A name that is reported later on is not the one that is loaded now. -/
theorem isLoadOf_of_mem {seen : List String} {other : String} {offset : Nat}
    {report : String × Nat} (hreport : report ∈ unbound bound seen events)
    (hother : other ∈ bound ∨ other ∈ seen) : (load other offset).isLoadOf report.1 = false := by
  obtain ⟨hbound, hseen, -⟩ := mem_unbound_iff.mp (List.mem_map_of_mem hreport)
  rw [isLoadOf, beq_eq_false_iff_ne]
  rintro rfl
  exact hother.elim hbound hseen

theorem unbound_offset {report : String × Nat} (hreport : report ∈ unbound bound seen events) :
    events[firstLoad events report.1]? = some (.load report.1 report.2) := by
  induction events generalizing bound seen with
  | nil => simp [unbound] at hreport
  | cons event events ih =>
    cases event with
    | bind other =>
      rw [firstLoad_cons rfl, List.getElem?_cons_succ]
      exact ih hreport
    | load other offset =>
      rw [unbound] at hreport
      split at hreport
      case isTrue h =>
        rw [firstLoad_cons (isLoadOf_of_mem hreport (by simpa using h)), List.getElem?_cons_succ]
        exact ih hreport
      case isFalse =>
        rcases List.mem_cons.mp hreport with rfl | hreport
        · simp [firstLoad, List.findIdx_cons, isLoadOf]
        · rw [firstLoad_cons (isLoadOf_of_mem hreport (by simp)), List.getElem?_cons_succ]
          exact ih hreport
    | later body =>
      rw [firstLoad_cons rfl, List.getElem?_cons_succ]
      exact ih hreport

/-- Reports that stay in order one event later are in order. -/
theorem pairwise_firstLoad_cons
    {found : List (String × Nat)} (hevent : ∀ report ∈ found, event.isLoadOf report.1 = false)
    (h : found.Pairwise fun a b => firstLoad events a.1 < firstLoad events b.1) :
    found.Pairwise fun a b =>
      firstLoad (event :: events) a.1 < firstLoad (event :: events) b.1 := by
  refine h.imp_of_mem fun {a b} ha hb hlt => ?_
  rw [firstLoad_cons (hevent a ha), firstLoad_cons (hevent b hb)]
  exact Nat.succ_lt_succ hlt

theorem unbound_order (events : List NameEvent) : (unbound bound seen events).Pairwise
    fun a b => firstLoad events a.1 < firstLoad events b.1 := by
  induction events generalizing bound seen with
  | nil => exact .nil
  | cons event events ih =>
    cases event with
    | bind other => exact pairwise_firstLoad_cons (fun _ _ => rfl) ih
    | load other offset =>
      rw [unbound]
      split
      case isTrue h =>
        exact pairwise_firstLoad_cons
          (fun report hreport => isLoadOf_of_mem hreport (by simpa using h)) ih
      case isFalse =>
        have hlater : ∀ report ∈ unbound bound (other :: seen) events,
            (load other offset).isLoadOf report.1 = false :=
          fun report hreport => isLoadOf_of_mem hreport (by simp)
        refine List.pairwise_cons.mpr ⟨fun report hreport => ?_, pairwise_firstLoad_cons hlater ih⟩
        rw [firstLoad_cons (hlater report hreport)]
        simp [firstLoad, List.findIdx_cons, isLoadOf]
    | later body => exact pairwise_firstLoad_cons (fun _ _ => rfl) ih

/-- **The names loaded unbound are reported**, each once and in order. -/
theorem reports_unbound (events : List NameEvent) : Reports events (unbound [] [] events) where
  exact name := by simp [mem_unbound_iff]
  once := by
    rw [List.Nodup, List.pairwise_map]
    exact (unbound_order events).imp fun hlt heq => absurd (heq ▸ hlt) (Nat.lt_irrefl _)
  offset _ hreport := unbound_offset hreport
  order := unbound_order events

/-! ### Two reports compared -/

/-- Bodies that are put off are not for the report. -/
theorem unbound_ofName (bound seen : List String) (events : List NameEvent) :
    unbound bound seen (events.filter isOfName) = unbound bound seen events := by
  induction events generalizing bound seen with
  | nil => rfl
  | cons event events ih => cases event <;> simp [List.filter_cons, isOfName, unbound, ih]

theorem unbound_binds (bound seen names : List String) (events : List NameEvent) :
    unbound bound seen (names.map .bind ++ events)
      = unbound (names.reverse ++ bound) seen events := by
  induction names generalizing bound with
  | nil => rfl
  | cons name names ih => simp [unbound, ih]

/-- **If some more names are bound from the start, just those are not reported.**  It does not
matter which of them are reported already. -/
theorem unbound_filter (names : List String) {bound' seen seen' : List String}
    (hbound : ∀ name, name ∈ bound' ↔ name ∈ names ∨ name ∈ bound)
    (hseen : ∀ name, name ∉ names → (name ∈ seen' ↔ name ∈ seen)) (events : List NameEvent) :
    unbound bound' seen' events = (unbound bound seen events).filter (·.1 ∉ names) := by
  induction events generalizing bound bound' seen seen' with
  | nil => rfl
  | cons event events ih =>
    cases event with
    | bind other =>
      refine ih (fun name => ?_) hseen
      simp only [List.mem_cons, hbound]
      tauto
    | load other offset =>
      simp only [unbound, Bool.or_eq_true, List.contains_iff_mem, hbound]
      by_cases hother : other ∈ names
      · rw [if_pos (.inl (.inl hother)), apply_ite (List.filter _)]
        simp only [List.filter_cons, hother, not_true, decide_false, Bool.false_eq_true, if_false]
        split
        · exact ih hbound hseen
        · refine ih hbound fun name hname => ?_
          have hne : name ≠ other := fun heq => hname (heq ▸ hother)
          rw [hseen name hname, List.mem_cons, or_iff_right hne]
      · simp only [hother, false_or, hseen other hother]
        split
        · exact ih hbound hseen
        · rw [List.filter_cons_of_pos (by simpa using hother)]
          refine congrArg _ (ih hbound fun name hname => ?_)
          simp only [List.mem_cons, hseen name hname]
    | later body => exact ih hbound hseen

theorem unbound_congr {bound' : List String} (h : ∀ name, name ∈ bound' ↔ name ∈ bound)
    (seen : List String) (events : List NameEvent) :
    unbound bound' seen events = unbound bound seen events := by
  have hfilter : unbound bound' seen events = (unbound bound seen events).filter (·.1 ∉ []) :=
    unbound_filter [] (by simpa using h) (fun _ _ => .rfl) events
  simpa using hfilter

/-- To bind what is bound already makes no difference. -/
theorem unbound_rebind {names : List String} (h : ∀ name ∈ names, name ∈ bound)
    (seen : List String) (before events : List NameEvent) :
    unbound bound seen (before ++ (names.map .bind ++ events))
      = unbound bound seen (before ++ events) := by
  induction before generalizing bound seen with
  | nil =>
    rw [List.nil_append, unbound_binds, List.nil_append]
    exact unbound_congr (fun name => by simpa using h name) seen events
  | cons event before ih =>
    cases event with
    | bind other => exact ih (fun name hname => .tail _ (h name hname)) seen
    | load other offset => simp only [List.cons_append, unbound, ih h]
    | later body => exact ih h seen

end NameEvent

/-! ### Undefined names -/

/-- A walk writes down all that the report depends on. -/
theorem unbound_allEvents (module : Module) :
    unbound [] [] (allEvents module) = module.undefinedNames := by
  rw [allEvents, unbound_ofName, unbound_binds, Module.undefinedNames]
  exact unbound_congr (by simp) [] module.nameEvents

/-- **Undefined names are those that a walk loads before it binds them.**  The walk comes to
an end, every walk comes to the same one, and on the way the body of every function of the
module is walked once.  Each name with a load that no binding precedes is reported, once, with
the offset of its first load and in the order of these loads.  So a name that is loaded and
never bound is reported, and a builtin is not. -/
theorem undefined_names_exact (module : Module) :
    ∃ last : NameWalk.State, Leads (.start module) last ∧ last.step? = none ∧
      (∀ state, Leads (.start module) state → Leads state last) ∧
      last.walked.Perm (functionBodies module.body) ∧ Reports last.events module.undefinedNames ∧
      (∀ name offset, .load name offset ∈ last.events → .bind name ∉ last.events →
        name ∈ module.undefinedNames.map Prod.fst) ∧
      ∀ name ∈ builtinNames, name ∉ module.undefinedNames.map Prod.fst := by
  obtain ⟨bodies, hbodies, hleads⟩ := exists_end module
  have hreports : Reports (allEvents module) module.undefinedNames :=
    unbound_allEvents module ▸ reports_unbound (allEvents module)
  refine ⟨_, hleads, rfl, fun state hstate => hleads.to_end rfl hstate, hbodies, hreports, ?_, ?_⟩
  · intro name offset hload hbind
    obtain ⟨before, after, hevents⟩ := List.append_of_mem hload
    refine (hreports.exact name).mpr ⟨before, offset, after, hevents, fun hmem => hbind ?_⟩
    exact hevents ▸ List.mem_append_left _ hmem
  · intro name hname hmem
    exact (mem_unbound_iff.mp hmem).1 hname

/-! ### Imports -/

/-- A statement that imports. -/
inductive Stmt.Imports : Stmt → List Alias → Prop
  | whole (span : Span) (names : List Alias) : Imports (.import_ span names) names
  | members (span : Span) (source : Option String) (level : Nat) (names : List Alias) :
    Imports (.importFrom span source level names) names

namespace Stmt.Imports

variable {s : Stmt} {names : List Alias}

theorem nameEvents (h : s.Imports names) : s.nameEvents = (importedNames names).map .bind := by
  cases h <;> simp [Stmt.nameEvents]

theorem hoistedNames (h : s.Imports names) : s.hoistedNames = importedNames names := by
  cases h <;> rfl

theorem functions (h : s.Imports names) : s.withInner.countP (·.function?.isSome) = 0 := by
  cases h <;> rfl

end Stmt.Imports

theorem blockNameEvents_append (before after : List Stmt) :
    blockNameEvents (before ++ after) = blockNameEvents before ++ blockNameEvents after := by
  simp only [← NameWalk.eventsOf_block, List.map_append, List.flatMap_append]

theorem later?_bind (names : List String) : (names.map NameEvent.bind).filterMap later? = [] := by
  simp [later?]

/-- An import at top level binds its names before all else, and once more where it stands. -/
theorem Module.nameEvents_import {s : Stmt} (h : s.Imports names) (before after : List Stmt) :
    ∃ events, Module.nameEvents ⟨before ++ after⟩
        = (before.flatMap Stmt.hoistedNames ++ after.flatMap Stmt.hoistedNames).map .bind
          ++ (blockNameEvents before ++ events) ∧ Module.nameEvents ⟨before ++ s :: after⟩
        = (before.flatMap Stmt.hoistedNames ++
            (importedNames names ++ after.flatMap Stmt.hoistedNames)).map .bind
          ++ (blockNameEvents before ++ ((importedNames names).map .bind ++ events)) := by
  have hcount : (allStmts (before ++ s :: after)).countP (·.function?.isSome)
      = (allStmts (before ++ after)).countP (·.function?.isSome) := by
    simp [allStmts_eq_flatMap, h.functions]
  refine ⟨blockNameEvents after ++ drain ((allStmts (before ++ after)).countP (·.function?.isSome))
    ((blockNameEvents before).filterMap later? ++ (blockNameEvents after).filterMap later?), ?_, ?_⟩
  · rw [Module.nameEvents, blockNameEvents_append]
    simp only [List.flatMap_append, List.filterMap_append, List.append_assoc]
  · rw [Module.nameEvents, hcount, blockNameEvents_append, blockNameEvents, h.nameEvents]
    simp only [List.flatMap_append, List.flatMap_cons, h.hoistedNames, List.filterMap_append,
      later?_bind, List.nil_append, List.append_assoc]

/-- Names that an import at top level binds are not reported, and the others are as before. -/
theorem Module.undefinedNames_import {s : Stmt} (h : s.Imports names) (before after : List Stmt) :
    Module.undefinedNames ⟨before ++ s :: after⟩
      = (Module.undefinedNames ⟨before ++ after⟩).filter (·.1 ∉ importedNames names) := by
  obtain ⟨events, hwithout, hwith⟩ := Module.nameEvents_import h before after
  rw [Module.undefinedNames, Module.undefinedNames, hwithout, hwith, unbound_binds, unbound_binds,
    unbound_rebind (by simp +contextual)]
  refine unbound_filter (importedNames names) (fun name => ?_) (fun _ _ => .rfl) _
  simp only [List.mem_append, List.mem_reverse]
  tauto

theorem importedNames_eq (h : ∀ a ∈ names, a.name ≠ "*") :
    importedNames names = names.map Alias.boundName := by
  rw [importedNames, List.filter_eq_self.mpr (by simpa using h)]

theorem exists_insertIdx {α : Type} (as : List α) (a : α) {i : Nat} (hi : i ≤ as.length) :
    ∃ before after, as = before ++ after ∧ as.insertIdx i a = before ++ a :: after := by
  induction as generalizing i with
  | nil =>
    obtain rfl : i = 0 := by simpa using hi
    exact ⟨[], [], rfl, rfl⟩
  | cons b as ih =>
    cases i with
    | zero => exact ⟨[], b :: as, rfl, rfl⟩
    | succ i =>
      obtain ⟨before, after, has, hinsert⟩ := ih (Nat.le_of_succ_le_succ hi)
      exact ⟨b :: before, after, by rw [has]; rfl, by rw [List.insertIdx_succ_cons, hinsert]; rfl⟩

/-- **An import only takes away reports.**  With an import that has no wildcard put anywhere
into the body of a module, what is reported is what was reported before, in the same order,
without the names that the import binds; so it does not matter where it is put. -/
theorem import_removes_reports (module : Module) {s : Stmt} {names : List Alias}
    (himports : s.Imports names) (hnames : ∀ a ∈ names, a.name ≠ "*") {i : Nat}
    (hi : i ≤ module.body.length) :
    Module.undefinedNames ⟨module.body.insertIdx i s⟩
        = module.undefinedNames.filter (·.1 ∉ names.map Alias.boundName) ∧
      ∀ j ≤ module.body.length, Module.undefinedNames ⟨module.body.insertIdx j s⟩
        = Module.undefinedNames ⟨module.body.insertIdx i s⟩ := by
  have hinsert (j : Nat) (hj : j ≤ module.body.length) :
      Module.undefinedNames ⟨module.body.insertIdx j s⟩
        = module.undefinedNames.filter (·.1 ∉ names.map Alias.boundName) := by
    obtain ⟨before, after, hbody, hinserted⟩ := exists_insertIdx module.body s hj
    have hmodule : module = ⟨before ++ after⟩ := congrArg Module.mk hbody
    rw [hinserted, Module.undefinedNames_import himports, ← hmodule, importedNames_eq hnames]
  exact ⟨hinsert i hi, fun j hj => (hinsert j hj).trans (hinsert i hi).symm⟩

/-- An import at the end of a module is in time for a name loaded in its first statement. -/
theorem import_removes_reports_at_end :
    let module : Module := ⟨[.expr ⟨0, 4⟩ (.name ⟨0, 4⟩ "join"), .function ⟨5, 29⟩
      ⟨"f", [], [], none, [.return_ ⟨18, 29⟩ (some (.name ⟨25, 29⟩ "base"))], [], false⟩]⟩
    let s : Stmt := .importFrom ⟨30, 54⟩ (some "os.path") 0 [⟨"join", none⟩]
    module.undefinedNames = [("join", 0), ("base", 25)] ∧
      Module.undefinedNames ⟨module.body.insertIdx 2 s⟩ = [("base", 25)] := by
  intro module s
  have hmodule : module.undefinedNames = [("join", 0), ("base", 25)] := rfl
  have hinsert := (import_removes_reports module (.members ⟨30, 54⟩ (some "os.path") 0
    [⟨"join", none⟩]) (by decide) (Nat.le_refl 2)).1
  refine ⟨hmodule, hinsert.trans ?_⟩
  rw [hmodule]
  decide

end Scrutiny
