/-
What the tally of the loops of a module says.

The depth is a counter that goes up where a loop is entered and down where it is left.
Against it stands what is around a visit in the tree: the statements that the traversal went
into on its way there (`Visit.surrounded`).  Before each visit the depth is the number of
loops around it (`follows_surrounded`), so an append is counted exactly if it is inside of a loop,
and a loop is never left at depth zero.
-/
import Mathlib.Data.List.Induction
import Scrutiny.Advice.SlowLoops
import Scrutiny.Proofs.Check.Names
import Scrutiny.Proofs.Syntax.StmtOrder

namespace Scrutiny

/-! ### What is around a visit -/

namespace Visit

/-- The statements around what a visit leads to, from the inside out. -/
def around (outer : List Stmt) : Visit → List Stmt
  | enter s => s :: outer
  | _ => outer

/-- The visits that a traversal makes from one on, each with the statements around it.
Leaving a statement is the last visit inside it. -/
def surrounded (outer : List Stmt) (v : Visit) : List (List Stmt × Visit) :=
  (outer, v) :: (v.inner.attach.flatMap (fun w => w.1.surrounded (v.around outer)) ++
    v.last.map (v.around outer, ·))
termination_by v.weight
decreasing_by exact weight_lt w.2

theorem surrounded_eq (outer : List Stmt) (v : Visit) :
    v.surrounded outer = (outer, v) :: (v.inner.flatMap (surrounded (v.around outer)) ++
      v.last.map (v.around outer, ·)) := by
  rw [surrounded, List.flatMap_subtype (fun _ _ => rfl), List.unattach_attach]

theorem map_snd_surrounded (outer : List Stmt) (v : Visit) :
    (v.surrounded outer).map Prod.snd = v.trail fun _ => true := by
  have hmade : v.isMade (fun _ => true) = true := by cases v <;> rfl
  rw [surrounded_eq, trail_eq, if_pos hmade, List.map_cons, List.map_append, List.map_flatMap,
    List.map_map]
  congr 2
  · exact List.flatMap_congr fun w _ => map_snd_surrounded _ w
  · exact List.map_id _
termination_by v.weight
decreasing_by exact weight_lt ‹_›

/-- A statement is left inside of it. -/
theorem mem_around_of_leave {around outer : List Stmt} {s : Stmt} (v : Visit) (hv : v.opens = true)
    (h : (around, leave s) ∈ v.surrounded outer) : s ∈ around := by
  rw [surrounded_eq] at h
  rcases List.mem_cons.mp h with heq | h
  · cases heq
    cases hv
  rcases List.mem_append.mp h with h | h
  · obtain ⟨w, hw, h⟩ := List.mem_flatMap.mp h
    exact mem_around_of_leave w (List.all_eq_true.mp v.opens_inner w hw) h
  · obtain ⟨last, hlast, heq⟩ := List.mem_map.mp h
    cases heq
    cases v with
    | enter t =>
      cases List.mem_singleton.mp hlast
      exact List.mem_cons_self
    | _ => cases hlast
termination_by v.weight
decreasing_by exact weight_lt hw

end Visit

/-- The visits to a module, each with the statements around it. -/
def Module.surrounded (module : Module) : List (List Stmt × Visit) :=
  (module.body.map Visit.enter).flatMap (Visit.surrounded [])

theorem Module.map_snd_surrounded (module : Module) :
    module.surrounded.map Prod.snd = module.visits := by
  rw [surrounded, List.map_flatMap, visits, ← trail_block]
  exact List.flatMap_congr fun v _ => v.map_snd_surrounded []

namespace LoopTally

/-! ### The depth -/

/-- The tally after some visits. -/
def after (tally : LoopTally) (visits : List (List Stmt × Visit)) : LoopTally :=
  (visits.map Prod.snd).foldl step tally

/-- Before each of some visits the depth is the number of loops around it. -/
def Follows (tally : LoopTally) : List (List Stmt × Visit) → Prop
  | [] => True
  | (around, v) :: rest => tally.depth = around.countP Stmt.isLoop ∧ (tally.step v).Follows rest

variable {tally : LoopTally} {xs ys : List (List Stmt × Visit)} {outer : List Stmt}

theorem after_append : tally.after (xs ++ ys) = (tally.after xs).after ys := by
  simp [after]

theorem follows_append :
    tally.Follows (xs ++ ys) ↔ tally.Follows xs ∧ (tally.after xs).Follows ys := by
  induction xs generalizing tally with
  | nil => simp [Follows, after]
  | cons x xs ih =>
    obtain ⟨around, v⟩ := x
    simp only [List.cons_append, Follows, ih, and_assoc]
    rfl

/-- From a depth that is right on, some visits find the right depth and leave it as it was. -/
def Balanced (outer : List Stmt) (xs : List (List Stmt × Visit)) : Prop :=
  ∀ tally : LoopTally, tally.depth = outer.countP Stmt.isLoop →
    tally.Follows xs ∧ (tally.after xs).depth = tally.depth

theorem Balanced.flatMap {ws : List Visit} (h : ∀ w ∈ ws, Balanced outer (w.surrounded outer)) :
    Balanced outer (ws.flatMap (Visit.surrounded outer)) := by
  induction ws with
  | nil => exact fun tally _ => ⟨trivial, rfl⟩
  | cons w ws ih =>
    intro tally htally
    obtain ⟨hw, hws⟩ := List.forall_mem_cons.mp h
    obtain ⟨hfollows, hdepth⟩ := hw tally htally
    obtain ⟨hrest, hback⟩ := ih hws (tally.after _) (hdepth.trans htally)
    rw [List.flatMap_cons, follows_append, after_append]
    exact ⟨⟨hfollows, hrest⟩, hback.trans hdepth⟩

/-- An expression changes nothing but the appends. -/
theorem step_expr (tally : LoopTally) (role : Role) (e : Expr) :
    ∃ appends, tally.step (.expr role e) = { tally with appends } := by
  cases role with
  | value =>
    simp only [step]
    split
    · split
      · exact ⟨_, rfl⟩
      · exact ⟨_, rfl⟩
    · exact ⟨_, rfl⟩
  | _ => exact ⟨_, rfl⟩

/-- What a visit leads to is found at the depth that is right for it. -/
theorem depth_step {v : Visit} (hv : v.opens = true) (h : tally.depth = outer.countP Stmt.isLoop) :
    (tally.step v).depth = (v.around outer).countP Stmt.isLoop := by
  cases v with
  | enter s =>
    rw [Visit.around, List.countP_cons, ← h]
    show (if s.isLoop then tally.depth + 1 else tally.depth) = _
    split
    · rfl
    · rfl
  | leave s => cases hv
  | expr role e =>
    obtain ⟨appends, hstep⟩ := step_expr tally role e
    rw [hstep]
    exact h
  | param p => exact h
  | handler p => exact h

/-- **A traversal finds at each visit the depth that is right for it**, and leaves the depth
as it was. -/
theorem balanced_surrounded (outer : List Stmt) (v : Visit) (hv : v.opens = true) :
    Balanced outer (v.surrounded outer) := by
  intro tally htally
  have hinner : Balanced (v.around outer) (v.inner.flatMap (Visit.surrounded (v.around outer))) :=
    .flatMap fun w hw => balanced_surrounded _ w (List.all_eq_true.mp v.opens_inner w hw)
  have hstep := depth_step hv htally
  obtain ⟨hfollows, hdepth⟩ := hinner (tally.step v) hstep
  have hlast := hdepth.trans hstep
  rw [Visit.surrounded_eq, ← List.cons_append, follows_append, after_append]
  cases v with
  | enter s =>
    refine ⟨⟨⟨htally, hfollows⟩, hlast, trivial⟩, ?_⟩
    show (if s.isLoop then ((tally.step (.enter s)).after _).depth - 1
      else ((tally.step (.enter s)).after _).depth) = tally.depth
    rw [hlast, Visit.around, List.countP_cons, htally]
    split
    · rfl
    · rfl
  | leave s => cases hv
  | expr role e => exact ⟨⟨⟨htally, hfollows⟩, trivial⟩, hlast.trans htally.symm⟩
  | param p => exact ⟨⟨⟨htally, hfollows⟩, trivial⟩, hdepth⟩
  | handler p => exact ⟨⟨⟨htally, hfollows⟩, trivial⟩, hdepth⟩
termination_by v.weight
decreasing_by exact Visit.weight_lt hw

/-- A statement is left at the depth at which it was entered. -/
theorem depth_visits (tally : LoopTally) (s : Stmt) :
    ((s.visits fun _ => true).foldl step tally).depth = tally.depth := by
  -- Any depth is right for a statement with as many loops around it.
  let loop : Stmt := .while_ ⟨0, 0⟩ (.name ⟨0, 0⟩ "") [] []
  have hdepth : tally.depth = (List.replicate tally.depth loop).countP Stmt.isLoop := by
    rw [List.countP_replicate, if_pos (by rfl)]
  have hback := (balanced_surrounded _ (.enter s) rfl tally hdepth).2
  rwa [after, Visit.map_snd_surrounded] at hback

/-! ### Appends -/

/-- The name that a visit appends to, if it does so with a loop around it. -/
def appended? : List Stmt × Visit → Option String
  | (around, v) => if around.any Stmt.isLoop then v.value?.bind Expr.appendsTo? else none

theorem appends_step {around : List Stmt} {v : Visit}
    (h : tally.depth = around.countP Stmt.isLoop) : (tally.step v).appends =
      (appended? (around, v)).toList.foldl
        (fun counts name => countOne name counts) tally.appends := by
  have hloop : around.any Stmt.isLoop = true ↔ 0 < tally.depth := by
    rw [h, List.countP_pos_iff, List.any_eq_true]
  unfold appended?
  cases v with
  | expr role e =>
    cases role with
    | value =>
      simp only [step, Visit.value?, Option.bind_some]
      cases e.appendsTo? with
      | none => simp
      | some name =>
        by_cases hdepth : 0 < tally.depth
        · simp [hdepth, hloop.mpr hdepth]
        · simp [hdepth, mt hloop.mp hdepth]
    | _ => simp [step, Visit.value?]
  | _ => simp [step, Visit.value?]

theorem appends_after (h : tally.Follows xs) : (tally.after xs).appends =
      (xs.filterMap appended?).foldl (fun counts name => countOne name counts) tally.appends := by
  induction xs generalizing tally with
  | nil => rfl
  | cons x xs ih =>
    obtain ⟨around, v⟩ := x
    obtain ⟨hdepth, hrest⟩ := h
    rw [after, List.map_cons, List.foldl_cons, ← after, ih hrest, appends_step hdepth,
      ← List.foldl_append]
    cases happended : appended? (around, v) <;> simp [happended]

/-- One more for a name, in a table that has each name once. -/
theorem countOne_map {names : List String} (hnames : names.Nodup) (count : String → Nat)
    (name : String) (hnew : name ∉ names → count name = 0) :
    countOne name (names.map fun other => (other, count other)) =
      (if name ∈ names then names else names ++ [name]).map
        fun other => (other, count other + if other = name then 1 else 0) := by
  induction names with
  | nil => simp [countOne, hnew]
  | cons first names ih =>
    obtain ⟨hfirst, hnames⟩ := List.nodup_cons.mp hnames
    rw [List.map_cons, countOne]
    by_cases heq : first = name
    · subst heq
      rw [if_pos rfl, if_pos List.mem_cons_self, List.map_cons, if_pos rfl]
      congr 1
      refine List.map_congr_left fun other hother => ?_
      have hne : other ≠ first := fun h => hfirst (h ▸ hother)
      rw [if_neg hne, Nat.add_zero]
    · rw [if_neg heq, ih hnames (fun h => hnew (by simp [h, Ne.symm heq]))]
      by_cases hmem : name ∈ names
      · simp [hmem, heq]
      · simp [hmem, heq, Ne.symm heq]

/-- **The counts are those of the names**, which stand in the order in which they come up. -/
theorem foldl_countOne (names : List String) :
    names.foldl (fun counts name => countOne name counts) [] =
      names.eraseDups.map fun name => (name, names.count name) := by
  induction names using List.reverseRecOn with
  | nil => rfl
  | append_singleton names name ih =>
    have hnodup : (names.eraseDups.map id).Nodup := nodup_eraseDupsBy names
    rw [List.map_id] at hnodup
    have hnew : name ∉ names.eraseDups → names.count name = 0 :=
      fun h => List.count_eq_zero.mpr (mt List.mem_eraseDups.mpr h)
    rw [List.foldl_append, ih, List.foldl_cons, List.foldl_nil, countOne_map hnodup _ _ hnew,
      List.eraseDups_append]
    have hlast : (if name ∈ names.eraseDups then names.eraseDups else names.eraseDups ++ [name])
        = names.eraseDups ++ ([name].removeAll names).eraseDups := by
      by_cases hmem : name ∈ names
      · simp [hmem, List.removeAll]
      · simp [hmem, List.removeAll, List.eraseDups_cons]
    rw [hlast]
    refine List.map_congr_left fun other _ => ?_
    simp only [List.count_append, List.count_singleton, beq_iff_eq, eq_comm (a := name)]

/-! ### Loops over ranges -/

theorem rangeLens_foldl (tally : LoopTally) (visits : List Visit) :
    (visits.foldl step tally).rangeLens =
      tally.rangeLens + (visits.filterMap Visit.entered?).countP Stmt.loopsOverRangeLen := by
  induction visits generalizing tally with
  | nil => rfl
  | cons v visits ih =>
    rw [List.foldl_cons, ih]
    cases v with
    | enter s =>
      rw [List.filterMap_cons_some (by rfl), List.countP_cons]
      simp only [step]
      split
      · omega
      · rfl
    | expr role e =>
      obtain ⟨appends, hstep⟩ := step_expr tally role e
      rw [hstep]
      rfl
    | _ => rfl

/-! ### The whole tally -/

theorem follows_surrounded (module : Module) : empty.Follows module.surrounded :=
  (Balanced.flatMap (fun v hv => balanced_surrounded [] v (by
    obtain ⟨s, -, rfl⟩ := List.mem_map.mp hv
    rfl)) empty rfl).1

/-- A loop is not left but inside of it. -/
theorem depth_pos_of_leave {module : Module} {before after : List Visit} {s : Stmt}
    (hvisits : module.visits = before ++ .leave s :: after) (hs : s.isLoop = true) :
    0 < (before.foldl step empty).depth := by
  rw [← module.map_snd_surrounded, List.map_eq_append_iff] at hvisits
  obtain ⟨xs, rest, hsplit, rfl, hrest⟩ := hvisits
  obtain ⟨⟨around, v⟩, ys, rfl, rfl, -⟩ := List.map_eq_cons_iff.mp hrest
  have hfollows := follows_surrounded module
  rw [hsplit, follows_append] at hfollows
  rw [← LoopTally.after, hfollows.2.1, List.countP_pos_iff]
  refine ⟨s, ?_, hs⟩
  have hmem : (around, Visit.leave s) ∈ module.surrounded := by simp [hsplit]
  obtain ⟨v, hv, hmem⟩ := List.mem_flatMap.mp hmem
  obtain ⟨t, -, rfl⟩ := List.mem_map.mp hv
  exact Visit.mem_around_of_leave _ rfl hmem

/-- **The tally of a module is exact.**  Every name that a visit appends to with a loop around
it is in it once, in the order in which they come up, with the number of these visits; and so
is the number of loops over `range(len(...))`.  A statement is left at the depth at which it
was entered, and where a loop is left the depth is not zero. -/
theorem ofModule_exact (module : Module) :
    let names := module.surrounded.filterMap appended?
    module.surrounded.map Prod.snd = module.visits ∧
      (ofModule module).appends = names.eraseDups.map (fun name => (name, names.count name)) ∧
      (ofModule module).rangeLens = (allStmts module.body).countP Stmt.loopsOverRangeLen ∧
      (∀ tally s, ((Stmt.visits (fun _ => true) s).foldl step tally).depth = tally.depth) ∧
      ∀ before s after, module.visits = before ++ .leave s :: after → s.isLoop = true →
        0 < (before.foldl step empty).depth := by
  intro names
  refine ⟨module.map_snd_surrounded, ?_, ?_, depth_visits, fun _ _ _ => depth_pos_of_leave⟩
  · rw [← foldl_countOne, ofModule, ← module.map_snd_surrounded]
    exact appends_after (follows_surrounded module)
  · rw [ofModule, rangeLens_foldl, module.entered_visits]
    exact Nat.zero_add _

end LoopTally

end Scrutiny
