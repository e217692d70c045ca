/-
Statements in their blocks.

A seat is a statement with what comes before it in its block.  The seats of a module are a
forest: inside a seat are those in the blocks of its statement.  So a place in this forest
tells apart two statements that look the same, and from it one sees the block that a
statement stands in and the statements around it.

All statements of a module, in order, are its seats in preorder (`Module.seats_listed`), and
what a check picks from that list it picks once for each place (`Module.eachOnce`).
-/
import Scrutiny.Proofs.Syntax.StmtOrder

namespace Scrutiny

/-- A statement and the statements before it in its block. -/
structure Seat where
  before : List Stmt
  stmt : Stmt

/-- The seats of a block of which some statements came before. -/
def seatsFrom (before : List Stmt) : List Stmt → List Seat
  | [] => []
  | s :: rest => ⟨before, s⟩ :: seatsFrom (before ++ [s]) rest

/-- The seats of a block. -/
def seats (block : List Stmt) : List Seat := seatsFrom [] block

theorem seatsFrom_stmt (before block : List Stmt) :
    (seatsFrom before block).map Seat.stmt = block := by
  induction block generalizing before with
  | nil => rfl
  | cons s rest ih => rw [seatsFrom, List.map_cons, ih]

/-- The seats in the blocks of a statement. -/
def Seat.inside (seat : Seat) : List Seat := seat.stmt.blocks.flatMap seats

theorem Seat.stmt_inside (seat : Seat) : seat.inside.map Seat.stmt = seat.stmt.blocks.flatten := by
  rw [Seat.inside, List.map_flatMap]
  simp only [seats, seatsFrom_stmt]
  exact List.flatMap_id'

theorem Seat.inside_smaller (seat : Seat) :
    ∀ inner ∈ seat.inside, sizeOf inner.stmt < sizeOf seat.stmt := by
  intro inner hinner
  refine Stmt.sizeOf_lt_of_mem_blocks ?_
  rw [← seat.stmt_inside]
  exact List.mem_map_of_mem hinner

/-- In preorder a seat gives its statement and all that are in its blocks. -/
theorem Seat.stmt_preorder (seat : Seat) :
    (preorder Seat.inside_smaller seat).map Seat.stmt = seat.stmt.withInner := by
  have hinside : (seat.inside.flatMap (preorder Seat.inside_smaller)).map Seat.stmt
      = allStmts seat.stmt.blocks.flatten := by
    rw [List.map_flatMap, ← seat.stmt_inside, allStmts_eq_flatMap, List.flatMap_map]
    exact List.flatMap_congr fun inner hinner => Seat.stmt_preorder inner
  rw [preorder_eq, List.map_cons, hinside, Stmt.withInner_eq]
termination_by sizeOf seat.stmt
decreasing_by exact seat.inside_smaller inner hinner

theorem Stmt.function?_eq_some {s : Stmt} {function : FunctionDef} :
    s.function? = some function ↔ ∃ span, s = .function span function := by
  cases s <;> simp [Stmt.function?]

/-- The seat at a place of a module. -/
def Module.seatAt? (module : Module) : Place → Option Seat :=
  standing? Seat.inside (seats module.body)

/-- The list of all statements goes through the seats. -/
theorem Module.seats_listed (module : Module) :
    ∃ places listing, Listed module.seatAt? places listing ∧
      listing.map Seat.stmt = allStmts module.body := by
  obtain ⟨places, hplaces⟩ := preorder_listed Seat.inside_smaller (seats module.body)
  refine ⟨places, _, hplaces, ?_⟩
  rw [List.map_flatMap, allStmts_eq_flatMap]
  conv_rhs => rw [← seatsFrom_stmt [] module.body, List.flatMap_map]
  exact List.flatMap_congr fun seat _ => seat.stmt_preorder

/-- **What is picked from all statements is picked once for each place.** -/
theorem Module.eachOnce {α : Type} (module : Module) (pick : Stmt → Option α) :
    EachOnce (fun place a => ∃ seat, module.seatAt? place = some seat ∧ pick seat.stmt = some a)
      ((allStmts module.body).filterMap pick) := by
  obtain ⟨places, listing, hlisted, hstmts⟩ := module.seats_listed
  obtain ⟨kept, hkept⟩ := hlisted.filterMap fun seat => pick seat.stmt
  rw [← hstmts, List.filterMap_map]
  exact hkept.eachOnce.congr fun place a => Option.bind_eq_some_iff

end Scrutiny
