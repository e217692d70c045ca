/-
The counts of a session add up.

A session looks a verdict up for every call of the syntax and the logic pass, and a tree
for every call for advice and for every verdict it has to work out, unless the text is
white space and only its syntax is asked for.  Each lookup is a hit or a miss, and each
miss leaves one entry behind, which is still there, was evicted or was cleared away.

`Booked` is the law between two states of one cache: so many lookups, so many of them
misses, so many entries dropped.  It holds of nothing at all, of one lookup and of one
clearing, and it adds up along a run.  A call is then at most one lookup in each cache,
and the two are coupled only by which calls need which.

Nothing is assumed of the digests: two texts with one digest would share an entry, and
still be counted right.
-/
import Mathlib.Algebra.Ring.Nat
import Scrutiny.Proofs.Cache.Queue
import Scrutiny.Proofs.Cache.Schedules
import Scrutiny.Proofs.Session.Transparency

namespace Scrutiny

namespace Cache

variable {κ ν : Type} [DecidableEq κ] [Hashable κ] {cache : Cache κ ν} {key : κ} {value : ν}

/-! ### Looking up and storing is one call -/

theorem evictOldest?_withPending (cache : Cache κ ν) (pending : List κ) :
    { cache with pending }.evictOldest? =
      cache.evictOldest?.map fun evicted => { evicted with pending } := by
  unfold evictOldest?
  dsimp only
  split <;> rfl

/-- Which keys are pending makes no difference to making room. -/
theorem makeRoom_withPending (cache : Cache κ ν) (pending : List κ) :
    { cache with pending }.makeRoom = { cache.makeRoom with pending } := by
  have hsame := evictOldest?_withPending cache pending
  fun_induction makeRoom cache with
  | case1 cache hroom => exact makeRoom_of_lt hroom
  | case2 cache hfull hnone =>
    rw [hnone] at hsame
    exact makeRoom_of_stuck hfull hsame
  | case3 cache hfull evicted hevict ih =>
    rw [hevict] at hsame
    rw [← ih (evictOldest?_withPending evicted pending)]
    exact makeRoom_of_evict hfull hsame

/-- Nor does it to storing. -/
theorem insert_withPending (cache : Cache κ ν) (pending : List κ) (key : κ) (value : ν) :
    { cache with pending }.insert key value = { cache.insert key value with pending } := by
  unfold insert
  split
  · rfl
  · rw [makeRoom_withPending]

theorem get_of_found (hfound : cache.find? key = some value) :
    cache.get key = (some value, cache.call key value) := by
  rw [call_of_found hfound]
  simp only [get, hfound]

/-- A cache that has counted a miss. -/
def missed (cache : Cache κ ν) : Cache κ ν := { cache with misses := cache.misses + 1 }

theorem get_of_absent (habsent : cache.find? key = none) :
    cache.get key = (none, cache.missed) := by
  simp only [get, habsent, missed]

/-- Looking a key up in vain and storing its value does what a caller does that computes
the value, as long as nobody else computes it. -/
theorem missed_insert (habsent : cache.find? key = none) (hfree : key ∉ cache.pending)
    (value : ν) : cache.missed.insert key value = cache.call key value := by
  have hclaimed : (cache.claim key).insert key value =
      { cache.missed.insert key value with pending := key :: cache.pending } :=
    insert_withPending cache.missed (key :: cache.pending) key value
  have hpending : (cache.missed.insert key value).pending = cache.pending :=
    insert_pending cache.missed key value
  rw [call_of_absent habsent hfree, hclaimed]
  show _ = { cache.missed.insert key value with pending := (key :: cache.pending).erase key }
  rw [List.erase_cons_head, ← hpending]

/-! ### What is booked -/

/-- A cache whose table and queue belong together, and that nobody is computing for. -/
structure Settled (cache : Cache κ ν) : Prop where
  sound : cache.Sound
  idle : cache.pending = []

/-- Between two states of a cache there were so many lookups, so many of them misses,
and so many entries were dropped. -/
structure Booked (before after : Cache κ ν) (asked missed dropped : Nat) : Prop where
  lookups : after.hits + after.misses = before.hits + before.misses + asked
  misses : after.misses = before.misses + missed
  /-- Every miss brought one entry, and those that are gone were evicted or dropped. -/
  entries : after.size + after.evictions + dropped = before.size + before.evictions + missed

theorem settled_empty (capacity : Nat) : (empty capacity : Cache κ ν).Settled :=
  ⟨sound_empty capacity, rfl⟩

theorem Settled.free (h : cache.Settled) (key : κ) : key ∉ cache.pending := by
  rw [h.idle]
  exact List.not_mem_nil

theorem Booked.refl (cache : Cache κ ν) : Booked cache cache 0 0 0 := ⟨rfl, rfl, rfl⟩

/-- What is booked adds up. -/
theorem Booked.trans {first second third : Cache κ ν} {a m d a' m' d' : Nat}
    (h : Booked first second a m d) (h' : Booked second third a' m' d') :
    Booked first third (a + a') (m + m') (d + d') where
  lookups := by rw [h'.lookups, h.lookups, Nat.add_assoc]
  misses := by rw [h'.misses, h.misses, Nat.add_assoc]
  entries := by
    have hfirst := h.entries
    have hsecond := h'.entries
    omega

/-- In a cache that started empty the counts are what was booked, and each miss is an
entry that is there, was evicted or was dropped. -/
theorem Booked.of_empty {capacity asked missed dropped : Nat}
    (h : Booked (empty capacity) cache asked missed dropped) :
    cache.hits + cache.misses = asked ∧ cache.misses = missed ∧
      cache.misses = cache.size + cache.evictions + dropped := by
  have hsize : (empty capacity : Cache κ ν).size = 0 := Std.HashMap.size_empty
  have hmisses : cache.misses = missed := h.misses.trans (Nat.zero_add missed)
  refine ⟨h.lookups.trans (Nat.zero_add asked), hmisses, ?_⟩
  rw [hmisses, h.entries, hsize]
  exact (Nat.zero_add missed).symm

/-- A caller looks up once, and a miss adds an entry. -/
theorem Settled.call (h : cache.Settled) (key : κ) (value : ν) :
    (cache.call key value).Settled ∧
      Booked cache (cache.call key value) 1 (if (cache.find? key).isNone then 1 else 0) 0 := by
  cases hfind : cache.find? key with
  | some found =>
    rw [call_of_found hfind]
    refine ⟨⟨h.sound.congr rfl rfl rfl, h.idle⟩, ?_, rfl, rfl⟩
    exact Nat.add_right_comm cache.hits 1 cache.misses
  | none =>
    rw [← missed_insert hfind (h.free key)]
    have hmissed : cache.missed.Sound := h.sound.congr rfl rfl rfl
    obtain ⟨hhits, hmisses⟩ := hmissed.insert_counts key value
    refine ⟨⟨hmissed.insert key value, ?_⟩, ?_, hmisses, hmissed.insert_balance hfind value⟩
    · rw [insert_pending]
      exact h.idle
    · rw [hhits, hmisses]
      rfl

/-- Clearing drops every entry, and looks nothing up. -/
theorem Settled.clear (h : cache.Settled) :
    cache.clear.Settled ∧ Booked cache cache.clear 0 0 cache.size := by
  refine ⟨⟨h.sound.clear, h.idle⟩, rfl, rfl, ?_⟩
  show (∅ : Std.HashMap κ ν).size + cache.evictions + cache.size = cache.size + cache.evictions + 0
  rw [Std.HashMap.size_empty]
  omega

end Cache

namespace Session

variable {session : Session}

/-! ### Calls and what they need -/

/-- Whether a call asks for a verdict. -/
def Call.isVerdict : Call → Bool
  | verdict _ _ => true
  | _ => false

/-- Whether a call asks for advice. -/
def Call.isAdvice : Call → Bool
  | advise _ => true
  | _ => false

/-- Whether a call asks for the syntax of a text that is white space alone. -/
def Call.onBlank : Call → Bool
  | verdict .syntactic source => isBlankText source.toList
  | _ => false

/-- A call and the session that it is made to. -/
structure Moment where
  session : Session
  call : Call

namespace Moment

/-- Whether the call asks for a verdict that is not kept. -/
def missesVerdict (moment : Moment) : Bool :=
  match moment.call with
  | .verdict pass source => (moment.session.verdicts.find? ⟨Digest.ofText source, pass⟩).isNone
  | _ => false

/-- Whether the call asks for a verdict that is not kept and cannot be given without
the tree of its text. -/
def worksOnTree (moment : Moment) : Bool := moment.missesVerdict && !moment.call.onBlank

/-- How many verdicts the call drops. -/
def droppedVerdicts (moment : Moment) : Nat :=
  match moment.call with
  | .clear => moment.session.verdicts.size
  | _ => 0

/-- How many trees the call drops. -/
def droppedTrees (moment : Moment) : Nat :=
  match moment.call with
  | .clear => moment.session.trees.size
  | _ => 0

end Moment

/-- The session that calls leave behind. -/
def after : Session → List Call → Session
  | session, [] => session
  | session, call :: calls => (session.respond call).2.after calls

/-- The calls, each with the session that those before it left. -/
def moments : Session → List Call → List Moment
  | _, [] => []
  | session, call :: calls => ⟨session, call⟩ :: (session.respond call).2.moments calls

/-! ### One call -/

/-- Reading a text is one lookup among the trees, and touches nothing else. -/
theorem parse_snd (htrees : session.trees.Settled) (source : String) :
    (session.parse source).2 =
      { session with trees := session.trees.call (Digest.ofText source) (buildTree source) } := by
  unfold parse TreeCache.parse
  cases hfind : session.trees.find? (Digest.ofText source) with
  | some outcome =>
    simp only [Cache.get_of_found hfind, Cache.call_of_found hfind]
  | none =>
    simp only [Cache.get_of_absent hfind, Cache.missed_insert hfind (htrees.free _)]

/-- Working a verdict out takes a tree, except for the syntax of white space. -/
theorem work_snd (session : Session) (htrees : session.trees.Settled) (pass : Pass)
    (source : String) :
    (session.work pass source).2 =
      if (Call.verdict pass source).onBlank then session
      else { session with
        trees := session.trees.call (Digest.ofText source) (buildTree source) } := by
  rw [← parse_snd htrees]
  cases pass with
  | syntactic =>
    simp only [work, Call.onBlank]
    exact apply_ite Prod.snd _ _ _
  | logical => rfl

/-- A call for a verdict is one lookup among the verdicts, and one among the trees if it
works on a tree. -/
theorem verdict_snd (hverdicts : session.verdicts.Settled) (htrees : session.trees.Settled)
    (pass : Pass) (source : String) :
    (session.verdict pass source).2 =
      { session with
        trees :=
          if Moment.worksOnTree ⟨session, .verdict pass source⟩ then
            session.trees.call (Digest.ofText source) (buildTree source)
          else session.trees
        verdicts := session.verdicts.call ⟨Digest.ofText source, pass⟩
          (session.verdict pass source).1 } := by
  cases hfind : session.verdicts.find? ⟨Digest.ofText source, pass⟩ with
  | some kept =>
    have hidle : Moment.worksOnTree ⟨session, .verdict pass source⟩ = false := by
      simp only [Moment.worksOnTree, Moment.missesVerdict, hfind, Option.isNone_some,
        Bool.false_and]
    simp only [verdict, Cache.get_of_found hfind, hidle, Bool.false_eq_true, if_false]
  | none =>
    have hworks : Moment.worksOnTree ⟨session, .verdict pass source⟩ =
        !(Call.verdict pass source).onBlank := by
      simp only [Moment.worksOnTree, Moment.missesVerdict, hfind, Option.isNone_none,
        Bool.true_and]
    have hwork := work_snd { session with verdicts := session.verdicts.missed } htrees pass source
    simp only [verdict, Cache.get_of_absent hfind, hworks, hwork]
    rw [← Cache.missed_insert hfind (hverdicts.free _)]
    cases (Call.verdict pass source).onBlank with
    | true => rfl
    | false => rfl

/-- What a call does to the counts of both caches. -/
theorem respond_booked (hverdicts : session.verdicts.Settled) (htrees : session.trees.Settled)
    (call : Call) :
    ((session.respond call).2.verdicts.Settled ∧ (session.respond call).2.trees.Settled) ∧
      session.verdicts.Booked (session.respond call).2.verdicts
        (if call.isVerdict then 1 else 0)
        (if Moment.missesVerdict ⟨session, call⟩ then 1 else 0)
        (Moment.droppedVerdicts ⟨session, call⟩) ∧
      ∃ missed, session.trees.Booked (session.respond call).2.trees
        ((if call.isAdvice then 1 else 0) + if Moment.worksOnTree ⟨session, call⟩ then 1 else 0)
        missed (Moment.droppedTrees ⟨session, call⟩) := by
  cases call with
  | verdict pass source =>
    have hnext : (session.respond (.verdict pass source)).2 = _ :=
      verdict_snd hverdicts htrees pass source
    rw [hnext]
    obtain ⟨hsettled, hbooked⟩ := hverdicts.call ⟨Digest.ofText source, pass⟩
      (session.verdict pass source).1
    obtain ⟨hsettled', hbooked'⟩ := htrees.call (Digest.ofText source) (buildTree source)
    cases hworks : Moment.worksOnTree ⟨session, .verdict pass source⟩ with
    | true => exact ⟨⟨hsettled, hsettled'⟩, hbooked, _, hbooked'⟩
    | false => exact ⟨⟨hsettled, htrees⟩, hbooked, 0, .refl _⟩
  | advise source =>
    have hnext : (session.respond (.advise source)).2 = _ := parse_snd htrees source
    rw [hnext]
    obtain ⟨hsettled, hbooked⟩ := htrees.call (Digest.ofText source) (buildTree source)
    exact ⟨⟨hverdicts, hsettled⟩, .refl _, _, hbooked⟩
  | clear =>
    obtain ⟨hsettled, hbooked⟩ := hverdicts.clear
    obtain ⟨hsettled', hbooked'⟩ := htrees.clear
    exact ⟨⟨hsettled, hsettled'⟩, hbooked, 0, hbooked'⟩

/-! ### Whole sessions -/

/-- What calls in a row do to the counts. -/
theorem after_booked (calls : List Call) :
    ∀ session : Session, session.verdicts.Settled → session.trees.Settled →
      session.verdicts.Booked (session.after calls).verdicts (calls.countP Call.isVerdict)
        ((session.moments calls).countP Moment.missesVerdict)
        ((session.moments calls).map Moment.droppedVerdicts).sum ∧
      ∃ missed, session.trees.Booked (session.after calls).trees
        (calls.countP Call.isAdvice + (session.moments calls).countP Moment.worksOnTree)
        missed ((session.moments calls).map Moment.droppedTrees).sum := by
  induction calls with
  | nil => exact fun _ _ _ => ⟨.refl _, 0, .refl _⟩
  | cons call calls ih =>
    intro session hverdicts htrees
    obtain ⟨⟨hverdicts', htrees'⟩, hverdict, missed, htree⟩ := respond_booked hverdicts htrees call
    obtain ⟨hrest, missed', hrest'⟩ := ih _ hverdicts' htrees'
    have hfirst := hverdict.trans hrest
    have hsecond := htree.trans hrest'
    simp only [moments, List.countP_cons, List.map_cons, List.sum_cons]
    refine ⟨?_, missed + missed', ?_⟩
    · rwa [Nat.add_comm (List.countP _ calls), Nat.add_comm (List.countP _ _)]
    · rwa [Nat.add_comm (List.countP _ calls), Nat.add_comm (List.countP Moment.worksOnTree _),
        Nat.add_add_add_comm]

/-- The counts that a session tells after some calls add up. -/
structure Accounted (opened : Session) (calls : List Call) : Prop where
  /-- Every call for a verdict looks one up, and no other call does. -/
  verdictLookups :
    (opened.after calls).stats.verdicts.hits + (opened.after calls).stats.verdicts.misses =
      calls.countP Call.isVerdict
  /-- The misses are the calls for a verdict that is not kept at the time. -/
  verdictMisses :
    (opened.after calls).stats.verdicts.misses =
      (opened.moments calls).countP Moment.missesVerdict
  /-- A tree is looked up for advice, and for a verdict that was missed, unless that is
  the syntax of white space. -/
  treeLookups :
    (opened.after calls).stats.trees.hits + (opened.after calls).stats.trees.misses =
      calls.countP Call.isAdvice +
        (opened.moments calls).countP fun moment =>
          moment.missesVerdict && !moment.call.onBlank
  /-- Each miss brought a verdict, which is there, was evicted or was cleared away. -/
  verdictEntries :
    (opened.after calls).stats.verdicts.misses =
      (opened.after calls).stats.verdicts.len + (opened.after calls).stats.verdicts.evictions +
        ((opened.moments calls).map Moment.droppedVerdicts).sum
  /-- So did each miss among the trees. -/
  treeEntries :
    (opened.after calls).stats.trees.misses =
      (opened.after calls).stats.trees.len + (opened.after calls).stats.trees.evictions +
        ((opened.moments calls).map Moment.droppedTrees).sum

/--
**The counts add up.**  In a session with any configuration that opens, any checks and any
capacity, whatever the calls: hits and misses are the lookups that the calls needed, and
no entry is lost or counted twice.
-/
theorem stats_accounted {config : Config} {checks : Checks} {opened : Session}
    (hopen : Session.open? config checks = .ok opened) (calls : List Call) :
    Accounted opened calls := by
  obtain rfl := eq_fresh_of_open? hopen
  obtain ⟨hverdicts, missed, htrees⟩ := after_booked calls (fresh config checks)
    (Cache.settled_empty _) (Cache.settled_empty _)
  obtain ⟨hlookups, hmisses, hentries⟩ := hverdicts.of_empty
  obtain ⟨hlookups', -, hentries'⟩ := htrees.of_empty
  exact ⟨hlookups, hmisses, hlookups', hentries, hentries'⟩

/-- With room for one entry, a session hits, misses, evicts, meets white space and is
cleared in the middle. -/
theorem stats_accounted_one_entry :
    let config : Config := { Config.default with cacheCapacity := 1 }
    let opened := fresh config Checks.standard
    let calls : List Call :=
      [.verdict .syntactic "x", .verdict .syntactic "x", .advise "x", .verdict .syntactic " ",
        .clear, .verdict .logical " ", .verdict .logical "x = (", .advise "x"]
    Session.open? config Checks.standard = .ok opened ∧ Accounted opened calls ∧
      calls.countP Call.isVerdict = 5 ∧ calls.countP Call.isAdvice = 2 := by
  intro config opened calls
  have hopen : Session.open? config Checks.standard = .ok opened := rfl
  exact ⟨hopen, stats_accounted hopen calls, rfl, rfl⟩

end Session

end Scrutiny
