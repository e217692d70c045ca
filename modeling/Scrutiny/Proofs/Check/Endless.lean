/-
Which loops are reported as endless.

What leaves a loop is a `return` or `raise` in its body, however deep, or a `break` of its
own.  A `break` belongs to the innermost loop that has it in its body: one in the `else` of an
inner loop belongs to the loop around that.  So on the way down from a block it is noted which
loops one goes into the body of (`Stmt.NestedIn`), and a `break` leaves the loop whose body is
that block if there were none.

The check carries the same note as a flag, which is all that it needs (`blockExits_iff`).
-/
import Scrutiny.Check.Flow.Endless
import Scrutiny.Proofs.Syntax.Seats

namespace Scrutiny

/-! ### Nested blocks -/

/-- The block that a loop repeats. -/
def Stmt.loopBlocks : Stmt → List (List Stmt)
  | .while_ _ _ body _ | .for_ _ _ _ body _ _ => [body]
  | _ => []

/-- The blocks of a statement, but for the body of a loop or of a definition. -/
def Stmt.sideBlocks : Stmt → List (List Stmt)
  | .while_ _ _ _ orElse | .for_ _ _ _ _ orElse _ => [orElse]
  | .function .. | .class_ .. => []
  | s => s.blocks

/-- A statement stands in a block, or deeper in it and in no definition there.  Of the loops
around it in the block, `loops` are those that have it in their body, outermost first. -/
inductive Stmt.NestedIn (s : Stmt) : List Stmt → List Stmt → Prop
  | here {block : List Stmt} (h : s ∈ block) : NestedIn s [] block
  | aside {owner : Stmt} {inner block loops : List Stmt} (howner : owner ∈ block)
      (hinner : inner ∈ owner.sideBlocks) (h : NestedIn s loops inner) : NestedIn s loops block
  | repeated {owner : Stmt} {inner block loops : List Stmt} (howner : owner ∈ block)
      (hinner : inner ∈ owner.loopBlocks) (h : NestedIn s loops inner) :
      NestedIn s (owner :: loops) block

/-- What is no definition has just these blocks. -/
theorem Stmt.loopBlocks_append_sideBlocks (s : Stmt) :
    s.loopBlocks ++ s.sideBlocks = if s.isDefinition then [] else s.blocks := by
  cases s <;> rfl

theorem Stmt.sizeOf_lt_of_mem_inner {s t : Stmt} {inner : List Stmt}
    (hinner : inner ∈ s.loopBlocks ++ s.sideBlocks) (ht : t ∈ inner) : sizeOf t < sizeOf s := by
  rw [Stmt.loopBlocks_append_sideBlocks] at hinner
  split at hinner
  · cases hinner
  · exact Stmt.sizeOf_lt_of_mem_blocks (List.mem_flatten_of_mem hinner ht)

theorem Stmt.NestedIn.mono {s : Stmt} {loops block larger : List Stmt} (h : s.NestedIn loops block)
    (hsub : block ⊆ larger) : s.NestedIn loops larger := by
  cases h with
  | here h => exact .here (hsub h)
  | aside howner hinner h => exact .aside (hsub howner) hinner h
  | repeated howner hinner h => exact .repeated (hsub howner) hinner h

/-! ### Leaving a loop -/

/-- Whether a statement leaves every loop around it. -/
def Stmt.leavesLoops : Stmt → Bool
  | .return_ .. | .raise_ .. => true
  | _ => false

/-- Whether a statement leaves the loop that it belongs to. -/
def Stmt.isBreak : Stmt → Bool
  | .break_ _ => true
  | _ => false

/-- Something in the body of a loop leaves it: a `return` or a `raise`, or a `break` that is
in the body of no other loop. -/
def LeavesLoop (body : List Stmt) : Prop :=
  ∃ (s : Stmt) (loops : List Stmt), s.NestedIn loops body ∧
    (s.leavesLoops = true ∨ s.isBreak = true ∧ loops = [])

theorem blockExits_eq (own : Bool) (block : List Stmt) :
    blockExits own block = block.any (Stmt.exits own) := by
  induction block with
  | nil => rfl
  | cons s rest ih => rw [blockExits, ih, List.any_cons]

/-- How a statement leaves a loop: by itself, or from one of its blocks. -/
theorem Stmt.exits_eq (own : Bool) (s : Stmt) :
    s.exits own = (s.leavesLoops || (s.isBreak && own) || s.loopBlocks.any (blockExits false) ||
      s.sideBlocks.any (blockExits own)) := by
  have hhandlers (handlers : List Handler) :
      handlersExit own handlers = (handlers.map (·.body)).any (blockExits own) := by
    induction handlers with
    | nil => rfl
    | cons h handlers ih =>
      obtain ⟨type, isStar, name, body, span⟩ := h
      rw [handlersExit, ih, List.map_cons, List.any_cons]
  have hcases (cases : List MatchCase) :
      casesExit own cases = (cases.map (·.body)).any (blockExits own) := by
    induction cases with
    | nil => rfl
    | cons c cases ih =>
      obtain ⟨pattern, binding, guard, body, span⟩ := c
      rw [casesExit, ih, List.map_cons, List.any_cons]
  cases s with
  | try_ span body handlers orElse finalBody =>
    simp [Stmt.exits, Stmt.leavesLoops, Stmt.isBreak, Stmt.loopBlocks, Stmt.sideBlocks,
      Stmt.blocks, hhandlers, Bool.or_assoc]
  | match_ span subject cases =>
    simp [Stmt.exits, Stmt.leavesLoops, Stmt.isBreak, Stmt.loopBlocks, Stmt.sideBlocks,
      Stmt.blocks, hcases]
  | _ =>
    simp [Stmt.exits, Stmt.leavesLoops, Stmt.isBreak, Stmt.loopBlocks, Stmt.sideBlocks,
      Stmt.blocks]

/-- What is found to leave a loop does. -/
theorem Stmt.exists_exit {own : Bool} {s : Stmt} (h : s.exits own = true) :
    ∃ (t : Stmt) (loops : List Stmt), t.NestedIn loops [s] ∧
      (t.leavesLoops = true ∨ t.isBreak = true ∧ own = true ∧ loops = []) := by
  -- What leaves from a block leaves from a statement in it.
  have hbelow {flag : Bool} {inner : List Stmt} (hinner : inner ∈ s.loopBlocks ++ s.sideBlocks)
      (hexits : blockExits flag inner = true) :
      ∃ (t : Stmt) (loops : List Stmt), t.NestedIn loops inner ∧
        (t.leavesLoops = true ∨ t.isBreak = true ∧ flag = true ∧ loops = []) := by
    rw [blockExits_eq] at hexits
    obtain ⟨u, hu, hexits⟩ := List.any_eq_true.mp hexits
    obtain ⟨t, loops, hnested, hleaves⟩ := Stmt.exists_exit hexits
    exact ⟨t, loops, hnested.mono (by simpa using hu), hleaves⟩
  rw [Stmt.exits_eq] at h
  simp only [Bool.or_eq_true, Bool.and_eq_true, List.any_eq_true] at h
  rcases h with ((hleaves | ⟨hbreak, hown⟩) | ⟨inner, hinner, hexits⟩) | ⟨inner, hinner, hexits⟩
  · exact ⟨s, [], .here (by simp), .inl hleaves⟩
  · exact ⟨s, [], .here (by simp), .inr ⟨hbreak, hown, rfl⟩⟩
  · obtain ⟨t, loops, hnested, hleaves⟩ := hbelow (by simp [hinner]) hexits
    exact ⟨t, s :: loops, .repeated (by simp) hinner hnested, .inl (by simpa using hleaves)⟩
  · obtain ⟨t, loops, hnested, hleaves⟩ := hbelow (by simp [hinner]) hexits
    exact ⟨t, loops, .aside (by simp) hinner hnested, hleaves⟩
termination_by sizeOf s
decreasing_by exact Stmt.sizeOf_lt_of_mem_inner hinner hu

/-- What leaves a loop is found. -/
theorem Stmt.NestedIn.exits {s : Stmt} {loops block : List Stmt} (h : s.NestedIn loops block)
    {own : Bool} (hleaves : s.leavesLoops = true ∨ s.isBreak = true ∧ own = true ∧ loops = []) :
    blockExits own block = true := by
  have hany {owner : Stmt} {block : List Stmt} {own : Bool} (howner : owner ∈ block)
      (hexits : owner.exits own = true) : blockExits own block = true := by
    rw [blockExits_eq]
    exact List.any_eq_true.mpr ⟨owner, howner, hexits⟩
  induction h generalizing own with
  | here hs =>
    refine hany hs ?_
    rw [Stmt.exits_eq]
    rcases hleaves with hleaves | ⟨hbreak, hown, -⟩
    · simp [hleaves]
    · simp [hbreak, hown]
  | aside howner hinner _ ih =>
    refine hany howner ?_
    rw [Stmt.exits_eq, List.any_eq_true.mpr ⟨_, hinner, ih hleaves⟩, Bool.or_true]
  | repeated howner hinner _ ih =>
    -- In the body of another loop no `break` counts any more.
    have hreturn : s.leavesLoops = true := by simpa using hleaves
    refine hany howner ?_
    rw [Stmt.exits_eq, List.any_eq_true.mpr ⟨_, hinner, ih (.inl hreturn)⟩]
    simp

/-- **The body of a loop is found to leave it if and only if something in it does.** -/
theorem blockExits_iff (body : List Stmt) : blockExits true body = true ↔ LeavesLoop body := by
  constructor
  · intro h
    rw [blockExits_eq] at h
    obtain ⟨s, hs, hexits⟩ := List.any_eq_true.mp h
    obtain ⟨t, loops, hnested, hleaves⟩ := Stmt.exists_exit hexits
    exact ⟨t, loops, hnested.mono (by simpa using hs), by simpa using hleaves⟩
  · rintro ⟨s, loops, hnested, hleaves⟩
    exact hnested.exits (by simpa using hleaves)

/-! ### Reports -/

theorem Stmt.isEndless_iff {s : Stmt} :
    s.isEndless = true ↔ ∃ span test body orElse, s = .while_ span test body orElse ∧
      test.isAlwaysTrue = true ∧ ¬ LeavesLoop body := by
  cases s with
  | while_ span test body orElse => simp [Stmt.isEndless, ← blockExits_iff]
  | _ => simp [Stmt.isEndless]

/-- **A loop is reported as endless if and only if its condition always holds and nothing in
its body leaves it**, and then once. -/
theorem endless_loops_exact (subject : Subject) :
    EachOnce (fun place finding => ∃ before span test body orElse,
        subject.tree.module.seatAt? place = some ⟨before, .while_ span test body orElse⟩ ∧
        test.isAlwaysTrue = true ∧ ¬ LeavesLoop body ∧
        let line := subject.lineOf span.start
        finding = .warning (subject.diagnosticAt line
          s!"Potential infinite loop detected: while True without break statement (line {line})"))
      (Endless.check.findings subject) := by
  have hpicked := subject.tree.module.eachOnce (Option.guard Stmt.isEndless)
  rw [List.filterMap_eq_filter] at hpicked
  refine (hpicked.map _).congr fun place finding => ?_
  constructor
  · rintro ⟨s, ⟨⟨before, other⟩, hseat, hguard⟩, rfl⟩
    obtain ⟨rfl, hendless⟩ := Option.guard_eq_some_iff.mp hguard
    obtain ⟨span, test, body, orElse, rfl, htest, hleaves⟩ := Stmt.isEndless_iff.mp hendless
    exact ⟨before, span, test, body, orElse, hseat, htest, hleaves, rfl⟩
  · rintro ⟨before, span, test, body, orElse, hseat, htest, hleaves, rfl⟩
    have hendless := Stmt.isEndless_iff.mpr ⟨span, test, body, orElse, rfl, htest, hleaves⟩
    exact ⟨_, ⟨_, hseat, Option.guard_eq_some_iff.mpr ⟨rfl, hendless⟩⟩, rfl⟩

end Scrutiny
