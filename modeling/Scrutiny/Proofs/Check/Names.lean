/-
The names that checks report are written in the tree.

Two checks report names: those read before anything binds them, and those assigned and
never read.  Both give the offset of a name, and it is where a node of the tree starts
(`Module.undefinedNames_inside`, `Module.unusedNames_inside`).  For the first the tree is
read as a sequence of events, in which bodies of functions wait in a queue; what waits is
part of the tree, and so is what it adds to the queue.
-/
import Scrutiny.Check.Names.Unused
import Scrutiny.Proofs.Check.NameWalk
import Scrutiny.Proofs.Syntax.Inside

namespace Scrutiny

variable {Q : Node → Prop}

/-! ### Repetitions -/

section

variable {α κ : Type} {same : α → α → Bool}

theorem filter_shorter (keep : α → Bool) (first : α) (rest : List α) :
    (rest.filter keep).length < (first :: rest).length :=
  Nat.lt_succ_of_le (List.length_filter_le ..)

theorem eraseDupsBy_sublist (as : List α) : (as.eraseDupsBy same).Sublist as := by
  cases as with
  | nil => simp
  | cons first rest =>
    rw [List.eraseDupsBy_cons]
    exact ((eraseDupsBy_sublist _).trans List.filter_sublist).cons_cons first
termination_by as.length
decreasing_by exact filter_shorter _ first rest

/-- What is left when repetitions are dropped was there before. -/
theorem mem_of_mem_eraseDupsBy {a : α} {as : List α} (h : a ∈ as.eraseDupsBy same) : a ∈ as :=
  (eraseDupsBy_sublist as).subset h

variable [BEq κ] [LawfulBEq κ] {key : α → κ}

/-- Of what has one key the first is kept. -/
theorem mem_eraseDupsBy_iff {a : α} {as : List α} :
    a ∈ as.eraseDupsBy (fun b c => key b == key c) ↔ as.find? (key · == key a) = some a := by
  cases as with
  | nil => simp
  | cons first rest =>
    rw [List.eraseDupsBy_cons, List.mem_cons, mem_eraseDupsBy_iff, List.find?_filter]
    by_cases hfirst : key first = key a
    · -- What comes later has another key.
      rw [List.find?_cons_of_pos (by simpa using hfirst), List.find?_eq_none.mpr]
      · simp [eq_comm]
      · simp [hfirst]
    · have hne : a ≠ first := fun heq => hfirst (heq ▸ rfl)
      rw [List.find?_cons_of_neg (by simpa using hfirst), or_iff_right hne]
      congr! 3
      grind
termination_by as.length
decreasing_by exact filter_shorter _ first rest

theorem nodup_eraseDupsBy (as : List α) :
    ((as.eraseDupsBy fun b c => key b == key c).map key).Nodup := by
  cases as with
  | nil => simp
  | cons first rest =>
    rw [List.eraseDupsBy_cons, List.map_cons, List.nodup_cons]
    refine ⟨fun hmem => ?_, nodup_eraseDupsBy _⟩
    obtain ⟨a, ha, heq⟩ := List.mem_map.mp hmem
    simpa [heq] using (List.mem_filter.mp (mem_of_mem_eraseDupsBy ha)).2
termination_by as.length
decreasing_by exact filter_shorter _ first rest

/-- No key is lost. -/
theorem mem_map_eraseDupsBy {k : κ} {as : List α} :
    k ∈ (as.eraseDupsBy fun b c => key b == key c).map key ↔ k ∈ as.map key := by
  constructor
  · intro h
    obtain ⟨a, ha, rfl⟩ := List.mem_map.mp h
    exact List.mem_map_of_mem (mem_of_mem_eraseDupsBy ha)
  · intro h
    obtain ⟨a, ha, rfl⟩ := List.mem_map.mp h
    cases hfind : as.find? (key · == key a) with
    | none => simpa using List.find?_eq_none.mp hfind a ha
    | some first =>
      obtain heq : key first = key a := by simpa using List.find?_some hfind
      rw [← heq] at hfind ⊢
      exact List.mem_map_of_mem (mem_eraseDupsBy_iff.mpr hfind)

end

/-! ### Events -/

/-- What an event refers to has the property: the name that is loaded, or the body. -/
def NameEvent.Inside (Q : Node → Prop) : NameEvent → Prop
  | .bind _ => True
  | .load _ offset => StartsAt Q offset
  | .later body => (body.map Node.stmt).Forall Q

open NameEvent NameWalk

/-- The same for what is noted among other tasks. -/
def NameWalk.Task.Inside (Q : Node → Prop) : Task → Prop
  | .visit .. => True
  | .event noted => noted.Inside Q

@[simp] theorem binds_inside (names : List String) : (binds names).Forall (Task.Inside Q) :=
  List.forall_iff_forall_mem.mpr fun task htask => by
    obtain ⟨name, -, rfl⟩ := List.mem_map.mp htask
    trivial

@[simp] theorem toVisit_inside (quiet : Bool) (visits : List Visit) :
    (toVisit quiet visits).Forall (Task.Inside Q) :=
  List.forall_iff_forall_mem.mpr fun task htask => by
    obtain ⟨v, -, rfl⟩ := List.mem_map.mp htask
    trivial

/-- What a visit notes refers to its node, or to the body in it. -/
theorem visitTasks_inside (hQ : Hereditary Q) (quiet : Bool) {v : Visit} (h : Q v.node) :
    (visitTasks quiet v).Forall (Task.Inside Q) := by
  cases v with
  | enter s =>
    cases s with
    | function span definition =>
      have hbody := ((List.forall_append ..).mp (hQ _ h)).2
      simpa [visitTasks, stmtTasks, values, Task.Inside, NameEvent.Inside] using hbody
    | _ => simp [visitTasks, stmtTasks, values]
  | expr role e =>
    cases role with
    | value =>
      cases e with
      | name span id =>
        cases quiet with
        | true => trivial
        | false => exact ⟨_, h, rfl⟩
      | _ => simp [visitTasks, exprTasks, values]
    | target | pattern => simp [visitTasks, exprTasks]
  | leave | param | handler => simp [visitTasks, values]

/-- **What a visit comes to refers to its node and the nodes below it.** -/
theorem eventsOf_inside (hQ : Hereditary Q) (quiet : Bool) (v : Visit) (h : Q v.node) :
    (eventsOf quiet v).Forall (NameEvent.Inside Q) := by
  rw [← visitTasks_events, List.forall_iff_forall_mem]
  intro event hevent
  obtain ⟨task, htask, hevent⟩ := List.mem_flatMap.mp hevent
  cases task with
  | visit quiet' w =>
    have hinside := eventsOf_inside hQ quiet' w (hQ.of_has h (visitTasks_under htask).has)
    exact List.forall_iff_forall_mem.mp hinside event hevent
  | event other =>
    obtain rfl := List.mem_singleton.mp hevent
    exact List.forall_iff_forall_mem.mp (visitTasks_inside hQ quiet h) _ htask
termination_by v.weight
decreasing_by exact (visitTasks_under htask).weight_lt

theorem blockNameEvents_inside (hQ : Hereditary Q) (stmts : List Stmt)
    (h : (stmts.map Node.stmt).Forall Q) : (blockNameEvents stmts).Forall (NameEvent.Inside Q) := by
  rw [← eventsOf_block, List.forall_iff_forall_mem]
  intro event hevent
  obtain ⟨v, hv, hevent⟩ := List.mem_flatMap.mp hevent
  obtain ⟨s, hs, rfl⟩ := List.mem_map.mp hv
  have hnode : Q (.stmt s) := List.forall_iff_forall_mem.mp h _ (List.mem_map_of_mem hs)
  exact List.forall_iff_forall_mem.mp (eventsOf_inside hQ false (.enter s) hnode) event hevent

/-! ### Names that nothing binds -/

namespace NameEvent

/-- The bodies that events leave for later. -/
theorem later_inside {events : List NameEvent} (h : events.Forall (NameEvent.Inside Q)) :
    ∀ body ∈ events.filterMap later?, (body.map Node.stmt).Forall Q := by
  intro body hbody
  obtain ⟨event, hevent, hlater⟩ := List.mem_filterMap.mp hbody
  have hinside := List.forall_iff_forall_mem.mp h event hevent
  cases event with
  | bind name => simp [later?] at hlater
  | load name offset => simp [later?] at hlater
  | later other =>
    obtain rfl : other = body := by simpa [later?] using hlater
    exact hinside

/-- Reading what waits puts only parts of it behind the queue. -/
theorem drain_inside (hQ : Hereditary Q) (n : Nat) {queue : List (List Stmt)}
    (h : ∀ body ∈ queue, (body.map Node.stmt).Forall Q) :
    (drain n queue).Forall (NameEvent.Inside Q) := by
  induction n generalizing queue with
  | zero => trivial
  | succ n ih =>
    cases queue with
    | nil => trivial
    | cons body queue =>
      obtain ⟨hbody, hqueue⟩ := List.forall_mem_cons.mp h
      have hevents := blockNameEvents_inside hQ body hbody
      simp only [drain, List.forall_append]
      refine ⟨hevents, ih fun other hother => ?_⟩
      rcases List.mem_append.mp hother with hother | hother
      · exact hqueue other hother
      · exact later_inside hevents other hother

theorem unbound_inside {events : List NameEvent} (h : events.Forall (NameEvent.Inside Q))
    (bound seen : List String) : ∀ found ∈ unbound bound seen events, StartsAt Q found.2 := by
  induction events generalizing bound seen with
  | nil => simp [unbound]
  | cons event events ih =>
    obtain ⟨hevent, hevents⟩ := (List.forall_cons ..).mp h
    cases event with
    | bind name => exact ih hevents _ _
    | later body => exact ih hevents _ _
    | load name offset =>
      simp only [unbound]
      split
      · exact ih hevents _ _
      · exact List.forall_mem_cons.mpr ⟨hevent, ih hevents _ _⟩

end NameEvent

theorem Module.body_has (module : Module) : (module.body.map Node.stmt).Forall module.Has := by
  refine List.forall_iff_forall_mem.mpr fun n hn => ?_
  obtain ⟨s, hs, rfl⟩ := List.mem_map.mp hn
  exact ⟨s, hs, .self⟩

/-- **A name reported as undefined is written in the tree.** -/
theorem Module.undefinedNames_inside (module : Module) :
    ∀ found ∈ module.undefinedNames, StartsAt module.Has found.2 := by
  have hbody := blockNameEvents_inside module.hereditary_has module.body module.body_has
  refine unbound_inside ?_ builtinNames []
  simp only [Module.nameEvents, List.forall_append]
  refine ⟨⟨List.forall_iff_forall_mem.mpr fun event hevent => ?_, hbody⟩,
    drain_inside module.hereditary_has _ (later_inside hbody)⟩
  obtain ⟨name, -, rfl⟩ := List.mem_map.mp hevent
  trivial

/-! ### Names that nothing reads -/

theorem Visit.assigned_inside (hQ : Hereditary Q) {visit : Visit} (h : Q visit.node) :
    ∀ found ∈ visit.assigned, StartsAt Q found.2 := by
  rw [← List.forall_iff_forall_mem]
  unfold Visit.assigned
  split
  · exact targetNamesAll_inside hQ _ ((List.forall_append ..).mp (hQ _ h)).1
  · exact Expr.targetNames_inside hQ _ (hQ _ h).1
  · exact Expr.targetNames_inside hQ _ (hQ _ h).1
  · trivial

/-- **A name reported as unused is written in the tree.** -/
theorem Module.unusedNames_inside (module : Module) :
    ∀ found ∈ module.unusedNames, StartsAt module.Has found.2 := by
  intro found hfound
  obtain ⟨visit, hvisit, hassigned⟩ :=
    List.mem_flatMap.mp (mem_of_mem_eraseDupsBy (List.mem_filter.mp hfound).1)
  have hvisits :=
    blockVisits_inside module.hereditary_has (fun _ => true) module.body module.body_has
  exact visit.assigned_inside module.hereditary_has
    (List.forall_iff_forall_mem.mp hvisits visit hvisit) found hassigned

end Scrutiny
