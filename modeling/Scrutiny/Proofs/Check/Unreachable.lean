/-
Which statements are reported as unreachable.

A statement of a function is cut off if one before it in its block is terminal
(`Seat.cut?`).  It is reported if nothing around it in that function is cut off itself
(`Module.CutOff`), and once only (`unreachable_reported_exactly`).

The check goes through the blocks of a function without entering definitions or what is cut
off.  So it comes to the seats in the forest of the function's body in which these are closed
(`reports_block`).  Two functions never report the same place, since between a function and
what it reports there is no other definition.
-/
import Scrutiny.Check.Flow.Unreachable
import Scrutiny.Proofs.Syntax.Seats

namespace Scrutiny

variable {cut : Stmt} {function : FunctionDef} {module : Module} {seat : Seat}

/-- What cuts a seat off: the first statement of its block that is terminal, if that comes
before it. -/
def Seat.cut? (seat : Seat) : Option Stmt := seat.before.find? Stmt.isTerminal

/-- `home` is the place of the innermost definition around a place. -/
structure Module.Home (module : Module) (home place : Place) (definition : Stmt) : Prop where
  around : home.Around place
  stands : ∃ seat, module.seatAt? home = some seat ∧ seat.stmt = definition
  opens : definition.isDefinition = true
  innermost : ∀ between : Place, home.Around between → between.Around place →
    ∀ seat, module.seatAt? between = some seat → seat.stmt.isDefinition = false

/-- The statement at a place belongs to a function, is cut off, and nothing around it in that
function is. -/
structure Module.CutOff (module : Module) (place : Place) (function : FunctionDef) (cut s : Stmt) :
    Prop where
  seat : ∃ seat, module.seatAt? place = some seat ∧ seat.cut? = some cut ∧ seat.stmt = s
  home : ∃ home span, module.Home home place (.function span function) ∧
    ∀ between : Place, home.Around between → between.Around place →
      ∀ seat, module.seatAt? between = some seat → seat.cut? = none

/-! ### The blocks of a function -/

/-- What is inside is not looked at: it belongs to another definition, or cannot run. -/
def Seat.isClosed (seat : Seat) : Bool := seat.stmt.isDefinition || seat.cut?.isSome

/-- The seats inside one that is not closed. -/
def Seat.open (seat : Seat) : List Seat := pruned Seat.inside Seat.isClosed seat

/-- A seat that is cut off, as it is reported. -/
def Seat.report? (seat : Seat) : Option (Stmt × Stmt) := seat.cut?.map (·, seat.stmt)

theorem Seat.open_smaller (seat : Seat) :
    ∀ inner ∈ seat.open, sizeOf inner.stmt < sizeOf seat.stmt := by
  intro inner hinner
  rw [Seat.open, pruned] at hinner
  split at hinner
  · cases hinner
  · exact seat.inside_smaller inner hinner

/-- The seats that are looked at from some on. -/
noncomputable def lookedAt (from_ : List Seat) : List Seat :=
  from_.flatMap (preorder Seat.open_smaller)

@[simp] theorem lookedAt_nil : lookedAt [] = [] := rfl

theorem lookedAt_cons (seat : Seat) (rest : List Seat) :
    lookedAt (seat :: rest) = seat :: (lookedAt seat.open ++ lookedAt rest) := by
  rw [lookedAt, List.flatMap_cons, preorder_eq, List.cons_append]
  rfl

/-- A statement that is no definition leads on to its blocks. -/
theorem Stmt.unreachable_eq (s : Stmt) :
    s.unreachable = if s.isDefinition then [] else s.blocks.flatMap blockUnreachable := by
  have hhandlers (handlers : List Handler) :
      handlersUnreachable handlers = (handlers.map (·.body)).flatMap blockUnreachable := by
    induction handlers with
    | nil => rfl
    | cons h handlers ih =>
      obtain ⟨type, isStar, name, body, span⟩ := h
      rw [handlersUnreachable, ih, List.map_cons, List.flatMap_cons]
  have hcases (cases : List MatchCase) :
      casesUnreachable cases = (cases.map (·.body)).flatMap blockUnreachable := by
    induction cases with
    | nil => rfl
    | cons c cases ih =>
      obtain ⟨pattern, binding, guard, body, span⟩ := c
      rw [casesUnreachable, ih, List.map_cons, List.flatMap_cons]
  cases s with
  | try_ span body handlers orElse finalBody =>
    simp [Stmt.unreachable, Stmt.isDefinition, Stmt.blocks, hhandlers]
  | match_ span subject cases => simp [Stmt.unreachable, Stmt.isDefinition, Stmt.blocks, hcases]
  | _ => simp [Stmt.unreachable, Stmt.isDefinition, Stmt.blocks]

/-- Behind a terminal statement all is reported, and nothing is entered. -/
theorem reports_cut {before block : List Stmt} (hcut : before.find? Stmt.isTerminal = some cut) :
    (lookedAt (seatsFrom before block)).filterMap Seat.report? = block.map (cut, ·) := by
  induction block generalizing before with
  | nil => rfl
  | cons s rest ih =>
    have hseat : Seat.cut? ⟨before, s⟩ = some cut := hcut
    have hclosed : Seat.open ⟨before, s⟩ = [] := by
      simp [Seat.open, pruned, Seat.isClosed, hseat]
    have hmore : (before ++ [s]).find? Stmt.isTerminal = some cut := by
      rw [List.find?_append, hcut, Option.some_or]
    rw [seatsFrom, lookedAt_cons, hclosed, lookedAt_nil, List.nil_append,
      List.filterMap_cons_some (by rw [Seat.report?, hseat, Option.map_some]), ih hmore,
      List.map_cons]

/-- A block is reported on as it should be, if the statements in it are. -/
theorem reports_block {before block : List Stmt} (hbefore : before.find? Stmt.isTerminal = none)
    (hblock : ∀ s ∈ block, ∀ before, before.find? Stmt.isTerminal = none →
      (lookedAt (Seat.open ⟨before, s⟩)).filterMap Seat.report? = s.unreachable) :
    (lookedAt (seatsFrom before block)).filterMap Seat.report? = blockUnreachable block := by
  induction block generalizing before with
  | nil => rfl
  | cons s rest ih =>
    have hnone : Seat.report? ⟨before, s⟩ = none := by simp [Seat.report?, Seat.cut?, hbefore]
    rw [seatsFrom, lookedAt_cons, List.filterMap_cons_none hnone, List.filterMap_append,
      hblock s List.mem_cons_self before hbefore, blockUnreachable]
    congr 1
    split
    case isTrue hterminal =>
      exact reports_cut (by simp [List.find?_append, hbefore, hterminal])
    case isFalse hterminal =>
      refine ih (by simp [List.find?_append, hbefore, hterminal]) fun t ht => ?_
      exact hblock t (List.mem_cons_of_mem s ht)

theorem Stmt.reports (s : Stmt) {before : List Stmt}
    (hbefore : before.find? Stmt.isTerminal = none) :
    (lookedAt (Seat.open ⟨before, s⟩)).filterMap Seat.report? = s.unreachable := by
  have hclosed : Seat.isClosed ⟨before, s⟩ = s.isDefinition := by
    simp [Seat.isClosed, Seat.cut?, hbefore]
  rw [Seat.open, pruned, hclosed, Stmt.unreachable_eq]
  split
  · rfl
  · rw [Seat.inside, lookedAt, List.flatMap_assoc, List.filterMap_flatMap]
    refine List.flatMap_congr fun block hblock => ?_
    refine reports_block rfl fun t ht before hbefore => ?_
    exact t.reports hbefore
termination_by sizeOf s
decreasing_by exact Stmt.sizeOf_lt_of_mem_blocks (List.mem_flatten_of_mem hblock ht)

/-- **What is unreachable in a block is what is cut off there, outside of definitions and of
what is cut off itself**, each once. -/
theorem blockUnreachable_eachOnce (block : List Stmt) :
    EachOnce (fun path report => ∃ seat, standing? Seat.open (seats block) path = some seat ∧
      seat.report? = some report) (blockUnreachable block) := by
  obtain ⟨places, hplaces⟩ := preorder_listed Seat.open_smaller (seats block)
  obtain ⟨kept, hkept⟩ := hplaces.filterMap Seat.report?
  have hblock : (lookedAt (seats block)).filterMap Seat.report? = blockUnreachable block :=
    reports_block rfl fun s _ before hbefore => s.reports hbefore
  rw [← hblock]
  exact hkept.eachOnce.congr fun path report => Option.bind_eq_some_iff

/-! ### All functions -/

/-- What stands in the body of the function at a place. -/
theorem Module.seatAt?_body {home path : Place}
    {span : Span} (hhome : module.seatAt? home = some seat)
    (hfunction : seat.stmt = .function span function) (hpath : path ≠ []) :
    module.seatAt? (home ++ path) = standing? Seat.inside (seats function.body) path := by
  have hinside : seat.inside = seats function.body := by
    simp [Seat.inside, hfunction, Stmt.blocks]
  rw [← hinside]
  exact standing?_append hhome hpath

theorem Seat.report?_eq_some {s : Stmt} :
    seat.report? = some (cut, s) ↔ seat.cut? = some cut ∧ seat.stmt = s := by
  simp [Seat.report?]

theorem Seat.isClosed_eq_false :
    seat.isClosed = false ↔ seat.stmt.isDefinition = false ∧ seat.cut? = none := by
  simp [Seat.isClosed]

/-- What a function reports is what is cut off in it. -/
theorem Module.cutOff_iff {place : Place} {s : Stmt} :
    module.CutOff place function cut s ↔ ∃ home path, home ++ path = place ∧
      (∃ seat, module.seatAt? home = some seat ∧ seat.stmt.function? = some function) ∧
      ∃ seat, standing? Seat.open (seats function.body) path = some seat ∧
        seat.report? = some (cut, s) := by
  have hbetween {home path below : Place} {seat : Seat} (hhome : module.seatAt? home = some seat)
      (hbelow : below.Around path) : home.Around (home ++ below) ∧
      (home ++ below).Around (home ++ path) := by
    have hne : home ≠ [] := by
      rintro rfl
      simp [Module.seatAt?] at hhome
    obtain ⟨hbelow, rest, hrest, rfl⟩ := hbelow
    exact ⟨⟨hne, below, hbelow, rfl⟩, by simp [hne], rest, hrest, by simp⟩
  constructor
  · rintro ⟨⟨seat, hseat, hcut, hs⟩, home, span,
      ⟨haround, ⟨owner, howner, hfunction⟩, -, hinner⟩, hfree⟩
    obtain ⟨-, path, hpath, rfl⟩ := haround
    have hbody {below : Place} (hbelow : below ≠ []) := Module.seatAt?_body howner hfunction hbelow
    refine ⟨home, path, rfl, ⟨owner, howner, by rw [hfunction]; rfl⟩, seat, ?_,
      Seat.report?_eq_some.mpr ⟨hcut, hs⟩⟩
    refine standing?_pruned.mpr
      ⟨(hbody hpath).symm.trans hseat, fun below hbelow other hother => ?_⟩
    obtain ⟨hlow, hhigh⟩ := hbetween howner hbelow
    rw [← hbody hbelow.1] at hother
    exact Seat.isClosed_eq_false.mpr
      ⟨hinner _ hlow hhigh other hother, hfree _ hlow hhigh other hother⟩
  · rintro ⟨home, path, rfl, ⟨owner, howner, hfunction⟩, seat, hseat, hreport⟩
    obtain ⟨span, hfunction⟩ := Stmt.function?_eq_some.mp hfunction
    obtain ⟨hcut, hs⟩ := Seat.report?_eq_some.mp hreport
    obtain ⟨hseat, hopen⟩ := standing?_pruned.mp hseat
    have hpath : path ≠ [] := by
      rintro rfl
      simp at hseat
    have hhome : home ≠ [] := by
      rintro rfl
      simp [Module.seatAt?] at howner
    have hbody {below : Place} (hbelow : below ≠ []) := Module.seatAt?_body howner hfunction hbelow
    -- What is between the function and the place is between the ends of the path.
    have hclosed (between : Place) (hlow : home.Around between)
        (hhigh : between.Around (home ++ path)) (other : Seat)
        (hother : module.seatAt? between = some other) : other.isClosed = false := by
      obtain ⟨-, below, hbelow, rfl⟩ := hlow
      obtain ⟨-, rest, hrest, heq⟩ := hhigh
      rw [List.append_assoc] at heq
      refine hopen below ⟨hbelow, rest, hrest, List.append_cancel_left heq⟩ other ?_
      rw [← hbody hbelow]
      exact hother
    refine ⟨⟨seat, (hbody hpath).trans hseat, hcut, hs⟩, home, span, ⟨⟨hhome, path, hpath, rfl⟩,
      ⟨owner, howner, hfunction⟩, rfl, fun between hlow hhigh other hother => ?_⟩,
      fun between hlow hhigh other hother => ?_⟩
    · exact (Seat.isClosed_eq_false.mp (hclosed between hlow hhigh other hother)).1
    · exact (Seat.isClosed_eq_false.mp (hclosed between hlow hhigh other hother)).2

/-- A function does not report on what is in a function inside it. -/
theorem Module.reports_apart {home between path : Place} {inner : FunctionDef}
    (hhome : ∃ seat, module.seatAt? home = some seat ∧ seat.stmt.function? = some function)
    (hinner : ∃ seat, module.seatAt? (home ++ between) = some seat ∧
      seat.stmt.function? = some inner)
    (hseat : standing? Seat.open (seats function.body) (between ++ path) = some seat)
    (hpath : path ≠ []) : between = [] := by
  by_contra hbetween
  obtain ⟨owner, howner, hfunction⟩ := hhome
  obtain ⟨other, hother, hnested⟩ := hinner
  obtain ⟨span, hfunction⟩ := Stmt.function?_eq_some.mp hfunction
  obtain ⟨span', hnested⟩ := Stmt.function?_eq_some.mp hnested
  rw [Module.seatAt?_body howner hfunction hbetween] at hother
  have hopen := (standing?_pruned.mp hseat).2 between ⟨hbetween, path, hpath, rfl⟩ other hother
  rw [Seat.isClosed_eq_false, hnested] at hopen
  cases hopen.1

/-- **A statement is reported as unreachable if and only if it belongs to a function, is cut off
in its block, and nothing around it in that function is.**  The innermost definition around it
is the function that the report names; the report also names the first terminal statement of
its block, and the line on which it starts itself.  Nothing is reported twice. -/
theorem unreachable_reported_exactly (subject : Subject) :
    EachOnce (fun place finding => ∃ function cut s,
        subject.tree.module.CutOff place function cut s ∧
          finding = .warning (subject.diagnosticAt (subject.lineOf s.span.start) <|
            s!"Unreachable code detected: statement after {cut.keyword} in " ++
              s!"'{function.name}' (line {subject.lineOf s.span.start})"))
      (Unreachable.check.findings subject) := by
  refine ((subject.tree.module.eachOnce Stmt.function?).flatMap
    (fun function => (blockUnreachable_eachOnce function.body).map _) ?_).congr
    fun place finding => ?_
  · rintro home function path _ home' function' path' _ hhome ⟨_, ⟨seat, hseat, -⟩, -⟩ hhome'
      ⟨_, ⟨seat', hseat', -⟩, -⟩ heq
    have hne {function : FunctionDef} {path : Place} {seat : Seat}
        (hseat : standing? Seat.open (seats function.body) path = some seat) : path ≠ [] := by
      rintro rfl
      simp at hseat
    rcases List.append_eq_append_iff.mp heq with ⟨between, rfl, rfl⟩ | ⟨between, rfl, rfl⟩
    · simp [Module.reports_apart hhome hhome' hseat (hne hseat')]
    · simp [Module.reports_apart hhome' hhome hseat' (hne hseat)]
  · simp only [Module.cutOff_iff]
    constructor
    · rintro ⟨home, function, path, hhome, ⟨⟨cut, s⟩, hreport, rfl⟩, rfl⟩
      exact ⟨function, cut, s, ⟨home, path, rfl, hhome, hreport⟩, rfl⟩
    · rintro ⟨function, cut, s, ⟨home, path, rfl, hhome, hreport⟩, rfl⟩
      exact ⟨home, function, path, hhome, ⟨(cut, s), hreport, rfl⟩, rfl⟩

end Scrutiny
