/-
Callers that come together are served as if they had come one by one.

A caller that gets or computes a value takes the cache three times, and anyone may come
in between.  What holds the others back is the pending key: until the value is stored
they wait, and from then on they find it.  So at any time at most one caller is at work,
and the turns of the others are hits.

`Stage` says which of three things is going on: nobody is at work, or one caller computes
and the others have not been told anything, or one has stored the value and has yet to
settle the key.  A turn leads from one stage to another.  Whatever the schedule, those who
have been served leave the cache as the same number of callers in a row would
(`oneByOne`), and at the end everyone has been served.
-/
import Mathlib.Logic.Function.Iterate
import Scrutiny.Cache.Requests

namespace Scrutiny.Cache

variable {other : Nat}

variable {κ ν : Type} [DecidableEq κ] [Hashable κ] {cache : Cache κ ν} {key : κ} {value : ν}

/-! ### Getting or computing a value -/

/-- What was just stored is found. -/
theorem find?_insert_self (cache : Cache κ ν) (key : κ) (value : ν) :
    (cache.insert key value).find? key = some value := by
  unfold insert find?
  split
  · exact Std.HashMap.getElem?_insert_self
  · exact Std.HashMap.getElem?_insert_self

theorem ask_of_found (hfound : cache.find? key = some value) :
    cache.ask key = .found value { cache with hits := cache.hits + 1 } := by
  simp only [ask, hfound]

variable (habsent : cache.find? key = none)

include habsent

theorem ask_of_pending (hpending : key ∈ cache.pending) :
    cache.ask key = .busy := by
  simp only [ask, habsent, if_pos hpending]

theorem ask_of_absent (hfree : key ∉ cache.pending) :
    cache.ask key = .claimed (cache.claim key) := by
  simp only [ask, habsent, if_neg hfree]

omit habsent in
theorem getOrCompute?_of_found {compute : Cache κ ν → Option ν × Cache κ ν}
    (hfound : cache.find? key = some value) :
    cache.getOrCompute? key compute = (some value, { cache with hits := cache.hits + 1 }) := by
  simp only [getOrCompute?, ask_of_found hfound]

/-- A computation that gives a value. -/
theorem getOrCompute?_of_some {compute : Cache κ ν → Option ν × Cache κ ν}
    (hfree : key ∉ cache.pending) (hsome : (compute (cache.claim key)).1 = some value) :
    cache.getOrCompute? key compute =
      (some value, ((compute (cache.claim key)).2.insert key value).settle key) := by
  have hcompute : compute (cache.claim key) = (some value, _) := Prod.ext hsome rfl
  simp only [getOrCompute?, ask_of_absent habsent hfree]
  rw [hcompute]

/-- A computation that breaks down. -/
theorem getOrCompute?_of_none {compute : Cache κ ν → Option ν × Cache κ ν}
    (hfree : key ∉ cache.pending) (hnone : (compute (cache.claim key)).1 = none) :
    cache.getOrCompute? key compute = (none, (compute (cache.claim key)).2.settle key) := by
  have hcompute : compute (cache.claim key) = (none, _) := Prod.ext hnone rfl
  simp only [getOrCompute?, ask_of_absent habsent hfree]
  rw [hcompute]

/-! ### One caller after another -/

omit habsent

/-- The cache after a caller got or computed a value. -/
def call (key : κ) (value : ν) (cache : Cache κ ν) : Cache κ ν :=
  (cache.getOrCompute? key (giving value)).2

theorem call_of_found {found : ν} (hfound : cache.find? key = some found) :
    cache.call key value = { cache with hits := cache.hits + 1 } := by
  rw [call, getOrCompute?_of_found hfound]

include habsent

theorem call_of_absent (hfree : key ∉ cache.pending) :
    cache.call key value = ((cache.claim key).insert key value).settle key := by
  rw [call, getOrCompute?_of_some habsent hfree rfl]
  rfl

omit habsent

/-- Making room and storing are none of a pending key's business. -/
theorem insert_pending (cache : Cache κ ν) (key : κ) (value : ν) :
    (cache.insert key value).pending = cache.pending := by
  have hroom : ∀ cache : Cache κ ν, cache.makeRoom.pending = cache.pending := by
    intro cache
    fun_induction makeRoom cache with
    | case1 => rfl
    | case2 => rfl
    | case3 cache _ evicted hevict ih =>
      rw [ih]
      unfold evictOldest? at hevict
      split at hevict
      · cases hevict
      · cases hevict
        rfl
  unfold insert
  split
  · rfl
  · exact hroom cache

/-- The cache after `n` callers in a row got or computed a value. -/
def oneByOne (cache : Cache κ ν) (key : κ) (value : ν) (n : Nat) : Cache κ ν :=
  (call key value)^[n] cache

theorem oneByOne_succ (cache : Cache κ ν) (key : κ) (value : ν) (n : Nat) :
    cache.oneByOne key value (n + 1) = (cache.oneByOne key value n).call key value :=
  Function.iterate_succ_apply' (call key value) n cache

/-- The value that everyone gets. -/
def shared (cache : Cache κ ν) (key : κ) (value : ν) : ν := (cache.find? key).getD value

/-- Callers in a row leave no key pending, and once there was one the value is there. -/
theorem oneByOne_found (hfree : key ∉ cache.pending) (value : ν) (n : Nat) :
    (cache.oneByOne key value n).pending = cache.pending ∧ (0 < n ∨ cache.find? key ≠ none →
        (cache.oneByOne key value n).find? key = some (cache.shared key value)) := by
  induction n with
  | zero =>
    refine ⟨rfl, fun hthere => ?_⟩
    rcases Option.ne_none_iff_exists'.mp (hthere.resolve_left (Nat.lt_irrefl 0)) with
      ⟨found, hfound⟩
    show cache.find? key = some (cache.shared key value)
    rw [shared, hfound, Option.getD_some]
  | succ n ih =>
    obtain ⟨hpending, hvalue⟩ := ih
    rw [oneByOne_succ]
    by_cases hthere : 0 < n ∨ cache.find? key ≠ none
    · rw [call_of_found (hvalue hthere)]
      exact ⟨hpending, fun _ => hvalue hthere⟩
    · -- Nobody came before, and the value is not there.
      obtain ⟨rfl, habsent⟩ : n = 0 ∧ cache.find? key = none := by
        rw [not_or, not_not] at hthere
        exact ⟨Nat.eq_zero_of_not_pos hthere.1, hthere.2⟩
      show (cache.call key value).pending = cache.pending ∧
        (_ → (cache.call key value).find? key = some (cache.shared key value))
      rw [call_of_absent habsent hfree, shared, habsent, Option.getD_none]
      refine ⟨?_, fun _ => find?_insert_self _ key value⟩
      show ((cache.claim key).insert key value).pending.erase key = cache.pending
      rw [insert_pending]
      show (key :: cache.pending).erase key = cache.pending
      rw [List.erase_cons_head]

/-! ### Turns -/

namespace Crew

variable {crew : Crew κ ν} {number : Nat}

theorem turn_of_getElem? {caller : Caller ν} (hcaller : crew.callers[number]? = some caller) :
    crew.turn key value number = ⟨crew.callers.set number (caller.step key value crew.cache).1,
      (caller.step key value crew.cache).2⟩ := by
  simp only [turn, hcaller]

theorem turn_of_none (hnobody : crew.callers[number]? = none) :
    crew.turn key value number = crew := by
  simp only [turn, hnobody]

/-- A turn that leaves the caller and the cache as they are changes nothing. -/
theorem turn_eq_self {caller : Caller ν} (hcaller : crew.callers[number]? = some caller)
    (hstep : caller.step key value crew.cache = (caller, crew.cache)) :
    crew.turn key value number = crew := by
  obtain ⟨hlt, hget⟩ := List.getElem?_eq_some_iff.mp hcaller
  rw [turn_of_getElem? hcaller, hstep]
  show (⟨crew.callers.set number caller, crew.cache⟩ : Crew κ ν) = crew
  rw [← hget, List.set_getElem_self]

theorem run_append (crew : Crew κ ν) (early late : List Nat) :
    crew.run key value (early ++ late) = (crew.run key value early).run key value late :=
  List.foldl_append

theorem turn_length (crew : Crew κ ν) (number : Nat) :
    (crew.turn key value number).callers.length = crew.callers.length := by
  unfold turn
  split
  · exact List.length_set
  · rfl

/-- A turn is nobody else's. -/
theorem turn_getElem?_ne (hne : number ≠ other) :
    (crew.turn key value number).callers[other]? = crew.callers[other]? := by
  unfold turn
  split
  · exact List.getElem?_set_ne hne
  · rfl

end Crew

/-! ### Stages -/

/-- Whether a caller has been served. -/
def Caller.isServed (caller : Caller ν) : Bool := caller.value?.isSome

/-- How many of some callers have been served. -/
def served (callers : List (Caller ν)) : Nat := callers.countP Caller.isServed

/-- Nobody is at work. -/
structure AtRest (cache : Cache κ ν) (key : κ) (value : ν) (crew : Crew κ ν) : Prop where
  callers : ∀ caller ∈ crew.callers,
    caller = .asking ∨ ∃ ran, caller = .served (cache.shared key value) ran
  state : crew.cache = cache.oneByOne key value (served crew.callers)
  /-- If the value was not there, one of those who have it computed it. -/
  runs : crew.callers.countP Caller.ran =
    if cache.find? key = none ∧ 0 < served crew.callers then 1 else 0

/-- One caller computes the value, and the others wait. -/
structure Computing (cache : Cache κ ν) (key : κ) (crew : Crew κ ν) (number : Nat) : Prop where
  absent : cache.find? key = none
  callers : ∃ n, number < n ∧ crew.callers = (List.replicate n .asking).set number .computing
  state : crew.cache = cache.claim key

/-- One caller has stored the value, and the others can find it. -/
structure Storing (cache : Cache κ ν) (key : κ) (value : ν) (crew : Crew κ ν) (number : Nat) :
    Prop where
  absent : cache.find? key = none
  callers : ∃ others : List (Caller ν), others[number]? = some .asking ∧
    crew.callers = others.set number .storing ∧
    (∀ caller ∈ others, caller = .asking ∨ caller = .served value false) ∧
    crew.cache.settle key = cache.oneByOne key value (served others + 1)
  found : crew.cache.find? key = some value

variable {crew : Crew κ ν} {number : Nat}

theorem served_replicate (n : Nat) : served (List.replicate n (.asking : Caller ν)) = 0 :=
  List.countP_eq_zero.mpr fun caller hmem => by
    rw [List.eq_of_mem_replicate hmem]
    exact Bool.false_ne_true

/-- A caller that is served in its turn is one more. -/
theorem served_set {callers : List (Caller ν)} (hasking : callers[number]? = some .asking)
    (found : ν) (ran : Bool) :
    served (callers.set number (.served found ran)) = served callers + 1 ∧
      (callers.set number (.served found ran)).countP Caller.ran =
        callers.countP Caller.ran + ran.toNat := by
  obtain ⟨hlt, hget⟩ := List.getElem?_eq_some_iff.mp hasking
  constructor
  · rw [served, List.countP_set hlt, hget]
    rfl
  · rw [List.countP_set hlt, hget]
    cases ran <;> rfl

/-- A turn while nobody is at work serves the caller, unless it now has to compute. -/
theorem AtRest.turn (hfree : key ∉ cache.pending) (h : AtRest cache key value crew)
    (hasking : crew.callers[number]? = some .asking) :
    (AtRest cache key value (crew.turn key value number) ∧
        (crew.turn key value number).callers[number]? =
          some (.served (cache.shared key value) false)) ∨
      Computing cache key (crew.turn key value number) number := by
  obtain ⟨hpending, hvalue⟩ := oneByOne_found hfree value (served crew.callers)
  obtain ⟨hlt, -⟩ := List.getElem?_eq_some_iff.mp hasking
  rw [Crew.turn_of_getElem? hasking]
  by_cases hthere : 0 < served crew.callers ∨ cache.find? key ≠ none
  · -- A hit: the caller is the next in the row.
    left
    obtain ⟨hserved, hran⟩ := served_set hasking (cache.shared key value) false
    have hfound := hvalue hthere
    rw [← h.state] at hfound
    simp only [Caller.step, ask_of_found hfound]
    refine ⟨⟨?_, ?_, ?_⟩, List.getElem?_set_self hlt⟩
    · intro caller hcaller
      rcases List.mem_or_eq_of_mem_set hcaller with hold | rfl
      · exact h.callers caller hold
      · exact Or.inr ⟨false, rfl⟩
    · show _ = cache.oneByOne key value (served _)
      rw [hserved, oneByOne_succ, ← h.state, call_of_found hfound]
    · show List.countP _ _ = if _ ∧ 0 < served _ then 1 else 0
      rw [hran, hserved, h.runs]
      by_cases habsent : cache.find? key = none
      · have hsome : 0 < served crew.callers := hthere.resolve_right (not_not.mpr habsent)
        simp [habsent, hsome]
      · simp [habsent]
  · -- Nobody has been served, so everyone is asking, and the key is free.
    right
    rw [not_or, not_not] at hthere
    obtain ⟨hnobody, habsent⟩ := hthere
    have hnone : served crew.callers = 0 := Nat.eq_zero_of_not_pos hnobody
    have hcache : crew.cache = cache := by
      rw [h.state, hnone]
      rfl
    have hall : crew.callers = List.replicate crew.callers.length .asking := by
      refine List.eq_replicate_of_mem fun caller hcaller => ?_
      rcases h.callers caller hcaller with hcase | ⟨ran, rfl⟩
      · exact hcase
      · exact absurd rfl (List.countP_eq_zero.mp hnone _ hcaller)
    have hclaim : crew.cache.ask key = .claimed (cache.claim key) := by
      rw [hcache]
      exact ask_of_absent habsent hfree
    simp only [Caller.step, hclaim]
    exact ⟨habsent, ⟨crew.callers.length, hlt, by rw [← hall]⟩, rfl⟩

/-- Whoever else has a turn while one computes goes on waiting. -/
theorem Computing.turn_ne (h : Computing cache key crew number)
    (hne : other ≠ number) : Computing cache key (crew.turn key value other) number := by
  suffices hsame : crew.turn key value other = crew by rwa [hsame]
  obtain ⟨n, hlt, hcallers⟩ := h.callers
  cases hcaller : crew.callers[other]? with
  | none => exact Crew.turn_of_none hcaller
  | some caller =>
    have hbusy : crew.cache.ask key = .busy := by
      rw [h.state]
      exact ask_of_pending h.absent List.mem_cons_self
    have hasking : caller = .asking := by
      rw [hcallers, List.getElem?_set_ne hne.symm] at hcaller
      exact List.eq_of_mem_replicate (List.mem_of_getElem? hcaller)
    refine Crew.turn_eq_self hcaller ?_
    rw [hasking]
    simp only [Caller.step, hbusy]

/-- The one who computes stores the value. -/
theorem Computing.turn_self (hfree : key ∉ cache.pending) (h : Computing cache key crew number)
    (value : ν) : Storing cache key value (crew.turn key value number) number := by
  obtain ⟨n, hlt, hcallers⟩ := h.callers
  have hcaller : crew.callers[number]? = some .computing := by
    rw [hcallers]
    exact List.getElem?_set_self (by rwa [List.length_replicate])
  rw [Crew.turn_of_getElem? hcaller]
  refine ⟨h.absent, ⟨List.replicate n .asking, ?_, ?_, ?_, ?_⟩, find?_insert_self _ _ _⟩
  · rw [List.getElem?_replicate, if_pos hlt]
  · show crew.callers.set number .storing = _
    rw [hcallers, List.set_set]
  · intro caller hmem
    exact Or.inl (List.eq_of_mem_replicate hmem)
  · show (crew.cache.insert key value).settle key = _
    rw [served_replicate, h.state]
    exact (call_of_absent h.absent hfree).symm

/-- Whoever else has a turn once the value is stored finds it. -/
theorem Storing.turn_ne (h : Storing cache key value crew number)
    (hne : other ≠ number) : Storing cache key value (crew.turn key value other) number := by
  obtain ⟨others, hasking, hcallers, hothers, hcache⟩ := h.callers
  have hsame : crew.callers[other]? = others[other]? := by
    rw [hcallers, List.getElem?_set_ne hne.symm]
  cases hcaller : others[other]? with
  | none =>
    rw [hcaller] at hsame
    rw [Crew.turn_of_none hsame]
    exact h
  | some caller =>
    rw [hcaller] at hsame
    rcases hothers caller (List.mem_of_getElem? hcaller) with rfl | rfl
    · -- One more in the row, whose turn is a hit.
      rw [Crew.turn_of_getElem? hsame]
      simp only [Caller.step, ask_of_found h.found]
      refine ⟨h.absent, ⟨others.set other (.served value false), ?_, ?_, ?_, ?_⟩, h.found⟩
      · rw [List.getElem?_set_ne hne, hasking]
      · show crew.callers.set other _ = _
        rw [hcallers, List.set_comm _ _ hne.symm]
      · intro caller hmem
        rcases List.mem_or_eq_of_mem_set hmem with hold | rfl
        · exact hothers caller hold
        · exact Or.inr rfl
      · have hnext : (crew.cache.settle key).find? key = some value := h.found
        rw [hcache] at hnext
        rw [(served_set hcaller value false).1, oneByOne_succ, call_of_found hnext, ← hcache]
        rfl
    · rw [Crew.turn_eq_self hsame rfl]
      exact h

/-- The one who stored the value settles the key. -/
theorem Storing.turn_self (h : Storing cache key value crew number) :
    AtRest cache key value (crew.turn key value number) ∧
      (crew.turn key value number).callers[number]? = some (.served value true) := by
  obtain ⟨others, hasking, hcallers, hothers, hcache⟩ := h.callers
  obtain ⟨hlt, -⟩ := List.getElem?_eq_some_iff.mp hasking
  have hcaller : crew.callers[number]? = some .storing := by
    rw [hcallers]
    exact List.getElem?_set_self hlt
  have hshared : cache.shared key value = value := by
    rw [shared, h.absent, Option.getD_none]
  obtain ⟨hserved, hran⟩ := served_set hasking value true
  have hnoruns : others.countP Caller.ran = 0 :=
    List.countP_eq_zero.mpr fun caller hmem => by
      rcases hothers caller hmem with rfl | rfl <;> exact Bool.false_ne_true
  rw [Crew.turn_of_getElem? hcaller]
  simp only [Caller.step]
  have hset : crew.callers.set number (.served value true)
      = others.set number (.served value true) := by
    rw [hcallers, List.set_set]
  rw [hset]
  refine ⟨⟨?_, ?_, ?_⟩, List.getElem?_set_self hlt⟩
  · intro caller hmem
    rw [hshared]
    rcases List.mem_or_eq_of_mem_set hmem with hold | rfl
    · exact (hothers caller hold).imp_right fun hcase => ⟨false, hcase⟩
    · exact Or.inr ⟨true, rfl⟩
  · show crew.cache.settle key = cache.oneByOne key value (served _)
    rw [hserved, hcache]
  · show List.countP _ _ = if _ ∧ 0 < served _ then 1 else 0
    rw [hran, hserved, hnoruns, if_pos ⟨h.absent, Nat.succ_pos _⟩]
    rfl

/-! ### Schedules -/

/-- One caller is at work. -/
def AtWork (cache : Cache κ ν) (key : κ) (value : ν) (crew : Crew κ ν) (number : Nat) : Prop :=
  Computing cache key crew number ∨ Storing cache key value crew number

/-- Nobody is at work, or one caller is. -/
def Stage (cache : Cache κ ν) (key : κ) (value : ν) (crew : Crew κ ν) : Prop :=
  AtRest cache key value crew ∨ ∃ number, AtWork cache key value crew number

theorem AtWork.lt (h : AtWork cache key value crew number) : number < crew.callers.length := by
  rcases h with h | h
  · obtain ⟨n, hlt, hcallers⟩ := h.callers
    simpa [hcallers] using hlt
  · obtain ⟨others, hasking, hcallers, -⟩ := h.callers
    obtain ⟨hlt, -⟩ := List.getElem?_eq_some_iff.mp hasking
    simpa [hcallers] using hlt

theorem AtWork.turn_ne (h : AtWork cache key value crew number)
    (hne : other ≠ number) : AtWork cache key value (crew.turn key value other) number :=
  h.imp (·.turn_ne hne) (·.turn_ne hne)

/-- Every turn leads from a stage to a stage. -/
theorem Stage.turn (hfree : key ∉ cache.pending) (h : Stage cache key value crew) (other : Nat) :
    Stage cache key value (crew.turn key value other) := by
  rcases h with hrest | ⟨number, hwork⟩
  · cases hcaller : crew.callers[other]? with
    | none =>
      rw [Crew.turn_of_none hcaller]
      exact Or.inl hrest
    | some caller =>
      rcases hrest.callers caller (List.mem_of_getElem? hcaller) with rfl | ⟨ran, rfl⟩
      · exact (hrest.turn hfree hcaller).imp And.left fun hcomputing => ⟨other, Or.inl hcomputing⟩
      · rw [Crew.turn_eq_self hcaller rfl]
        exact Or.inl hrest
  · by_cases hother : other = number
    · subst hother
      rcases hwork with hcomputing | hstoring
      · exact Or.inr ⟨other, Or.inr (hcomputing.turn_self hfree value)⟩
      · exact Or.inl hstoring.turn_self.1
    · exact Or.inr ⟨number, hwork.turn_ne hother⟩

theorem Stage.run (hfree : key ∉ cache.pending) (schedule : List Nat) :
    ∀ {crew : Crew κ ν}, Stage cache key value crew →
      Stage cache key value (crew.run key value schedule) := by
  induction schedule with
  | nil => intro crew h; exact h
  | cons number rest ih => intro crew h; exact ih (h.turn hfree number)

theorem Crew.run_length (schedule : List Nat) :
    ∀ crew : Crew κ ν, (crew.run key value schedule).callers.length = crew.callers.length := by
  induction schedule with
  | nil => intro crew; rfl
  | cons number rest ih => intro crew; exact (ih _).trans (crew.turn_length number)

/-! ### Three turns in a row -/

/-- While nobody is at work, three turns serve anyone. -/
theorem AtRest.thrice (hfree : key ∉ cache.pending) (h : AtRest cache key value crew)
    (number : Nat) : AtRest cache key value (crew.run key value (List.replicate 3 number)) ∧
      ∀ caller, (crew.run key value (List.replicate 3 number)).callers[number]? = some caller →
        caller.isServed = true := by
  show AtRest cache key value (((crew.turn key value number).turn key value number).turn key value
    number) ∧ ∀ caller, (((crew.turn key value number).turn key value number).turn key value
      number).callers[number]? = some caller → _
  cases hcaller : crew.callers[number]? with
  | none =>
    simp only [Crew.turn_of_none hcaller]
    refine ⟨h, fun caller hget => ?_⟩
    rw [hcaller] at hget
    cases hget
  | some caller =>
    rcases h.callers caller (List.mem_of_getElem? hcaller) with rfl | ⟨ran, rfl⟩
    · rcases h.turn hfree hcaller with ⟨hrest, hserved⟩ | hcomputing
      · simp only [Crew.turn_eq_self hserved rfl]
        refine ⟨hrest, fun caller hget => ?_⟩
        rw [hserved] at hget
        cases hget
        rfl
      · -- It claims the key in its first turn, and has the other two to store and settle.
        obtain ⟨hrest, hserved⟩ := (hcomputing.turn_self hfree value).turn_self
        refine ⟨hrest, fun caller hget => ?_⟩
        rw [hserved] at hget
        cases hget
        rfl
    · simp only [Crew.turn_eq_self hcaller rfl]
      refine ⟨h, fun caller hget => ?_⟩
      rw [hcaller] at hget
      cases hget
      rfl

/-- Three turns are enough for the one at work to finish. -/
theorem AtWork.thrice (hfree : key ∉ cache.pending) (h : AtWork cache key value crew number) :
    AtRest cache key value (crew.run key value (List.replicate 3 number)) := by
  show AtRest cache key value (((crew.turn key value number).turn key value number).turn key value
    number)
  rcases h with hcomputing | hstoring
  · obtain ⟨hrest, hserved⟩ := (hcomputing.turn_self hfree value).turn_self
    rw [Crew.turn_eq_self hserved rfl]
    exact hrest
  · obtain ⟨hrest, hserved⟩ := hstoring.turn_self
    simp only [Crew.turn_eq_self hserved rfl]
    exact hrest

/-! ### Rounds -/

theorem Crew.run_round_succ (crew : Crew κ ν) (n : Nat) : crew.run key value (Crew.round (n + 1)) =
      (crew.run key value (Crew.round n)).run key value (List.replicate 3 n) := by
  rw [← Crew.run_append, Crew.round, Crew.round, List.range_succ, List.flatMap_append]
  simp only [List.flatMap_singleton]

/-- In a round the one at work gets to finish. -/
theorem Stage.round (hfree : key ∉ cache.pending) (h : Stage cache key value crew) (n : Nat) :
    AtRest cache key value (crew.run key value (Crew.round n)) ∨
      ∃ number, n ≤ number ∧ AtWork cache key value (crew.run key value (Crew.round n)) number := by
  induction n with
  | zero => exact h.imp id fun ⟨number, hwork⟩ => ⟨number, Nat.zero_le number, hwork⟩
  | succ n ih =>
    rw [Crew.run_round_succ]
    rcases ih with hrest | ⟨number, hle, hwork⟩
    · exact Or.inl (hrest.thrice hfree n).1
    · by_cases hself : n = number
      · subst hself
        exact Or.inl (hwork.thrice hfree)
      · exact Or.inr ⟨number, by omega, ((hwork.turn_ne hself).turn_ne hself).turn_ne hself⟩

/-- If nobody is at work, a round serves those whose turns it has. -/
theorem AtRest.round (hfree : key ∉ cache.pending) (h : AtRest cache key value crew) (n : Nat) :
    AtRest cache key value (crew.run key value (Crew.round n)) ∧ ∀ number < n, ∀ caller,
        (crew.run key value (Crew.round n)).callers[number]? = some caller →
          caller.isServed = true := by
  induction n with
  | zero => exact ⟨h, fun number hlt => absurd hlt (Nat.not_lt_zero number)⟩
  | succ n ih =>
    obtain ⟨hrest, hserved⟩ := ih
    rw [Crew.run_round_succ]
    obtain ⟨hnext, hlast⟩ := hrest.thrice hfree n
    refine ⟨hnext, fun number hlt caller hget => ?_⟩
    by_cases hself : n = number
    · subst hself
      exact hlast caller hget
    · refine hserved number (by omega) caller ?_
      rw [← hget]
      exact ((Crew.turn_getElem?_ne hself).trans
        ((Crew.turn_getElem?_ne hself).trans (Crew.turn_getElem?_ne hself))).symm

/-- Once everyone has been served, everyone has the value. -/
theorem AtRest.finished (h : AtRest cache key value crew) {callers : Nat}
    (hlength : crew.callers.length = callers)
    (hserved : ∀ caller ∈ crew.callers, caller.isServed = true) :
    crew.cache = cache.oneByOne key value callers ∧
      crew.callers.filterMap Caller.value? = List.replicate callers (cache.shared key value) ∧
      crew.callers.countP Caller.ran = if cache.find? key = none ∧ 0 < callers then 1 else 0 := by
  have hall : served crew.callers = callers := by
    rw [served, List.countP_eq_length.mpr hserved, hlength]
  refine ⟨?_, ?_, ?_⟩
  · rw [h.state, hall]
  · refine List.eq_replicate_iff.mpr ⟨?_, fun found hfound => ?_⟩
    · rw [List.length_filterMap_eq_countP]
      exact hall
    · obtain ⟨caller, hmem, hvalue⟩ := List.mem_filterMap.mp hfound
      rcases h.callers caller hmem with rfl | ⟨ran, rfl⟩
      · cases hvalue
      · exact (Option.some.inj hvalue).symm
  · rw [h.runs, hall]

/-- **Together is one by one.**  Whatever the schedule, all callers are served, with the
same value; the cache is as if they had come in a row; and if the value was not there
exactly one of them computed it. -/
theorem getTogether_eq (hfree : key ∉ cache.pending) (callers : Nat) (schedule : List Nat) :
    (cache.getTogether key value callers schedule).cache = cache.oneByOne key value callers ∧
      (cache.getTogether key value callers schedule).callers.filterMap Caller.value? =
        List.replicate callers (cache.shared key value) ∧
      (cache.getTogether key value callers schedule).callers.countP Caller.ran =
        if cache.find? key = none ∧ 0 < callers then 1 else 0 := by
  have hstart : AtRest cache key value ⟨List.replicate callers .asking, cache⟩ := by
    refine ⟨fun caller hmem => Or.inl (List.eq_of_mem_replicate hmem), ?_, ?_⟩
    · rw [served_replicate]
      rfl
    · rw [served_replicate, if_neg fun hboth => Nat.lt_irrefl 0 hboth.2]
      exact List.countP_eq_zero.mpr fun caller hmem => by
        rw [List.eq_of_mem_replicate hmem]
        exact Bool.false_ne_true
  have hlength : ∀ turns, (Crew.run key value ⟨List.replicate callers .asking, cache⟩
      turns).callers.length = callers := by
    intro turns
    rw [Crew.run_length, List.length_replicate]
  -- The first round leaves nobody at work, and the second serves everyone.
  have hrest : AtRest cache key value (Crew.run key value ⟨List.replicate callers .asking, cache⟩
      (schedule ++ Crew.round callers)) := by
    rw [Crew.run_append]
    rcases (Stage.run hfree schedule (Or.inl hstart)).round hfree callers with hrest |
      ⟨number, hle, hwork⟩
    · exact hrest
    · have hlt := hwork.lt
      rw [← Crew.run_append, hlength] at hlt
      omega
  obtain ⟨hlast, hserved⟩ := hrest.round hfree callers
  rw [← Crew.run_append] at hlast hserved
  exact hlast.finished (hlength _) fun caller hmem => by
    obtain ⟨number, hlt, hget⟩ := List.getElem_of_mem hmem
    exact hserved number (by rwa [hlength] at hlt) caller
      (List.getElem?_eq_some_iff.mpr ⟨hlt, hget⟩)

end Scrutiny.Cache
