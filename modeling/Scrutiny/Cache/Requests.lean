/-
Requests to a cache, from one caller at a time and from several at once.

A caller that gets or computes a value takes the cache for itself three times: to ask
for the key, to store what it computed, and to settle the key.  Between these steps
others may have their turns.  A schedule says whose turn is next.
-/
import Scrutiny.Cache

namespace Scrutiny.Cache

variable {κ ν : Type} [DecidableEq κ] [Hashable κ]

/-! ### Computations -/

/-- A computation that gives a value. -/
def giving (value : ν) (cache : Cache κ ν) : Option ν × Cache κ ν := (some value, cache)

/-- A computation that breaks down. -/
def breaking (cache : Cache κ ν) : Option ν × Cache κ ν := (none, cache)

/-- A computation that gets or computes the value of another key and goes on from there. -/
def derived (inner : κ) (value : ν) (next : ν → ν) (cache : Cache κ ν) : Option ν × Cache κ ν :=
  let (got, cache) := cache.getOrCompute? inner (giving value)
  (got.map next, cache)

/-! ### Several callers at once -/

/-- How far a caller has come that wants the value of a key. -/
inductive Caller (ν : Type) where
  /-- It has yet to be told, or waits. -/
  | asking
  /-- It has claimed the key and computes the value. -/
  | computing
  /-- It has stored the value and has yet to settle the key. -/
  | storing
  /-- It has the value; `ran` says whether it computed it itself. -/
  | served (value : ν) (ran : Bool)
deriving DecidableEq, Repr

namespace Caller

/-- The value that a caller was given. -/
def value? : Caller ν → Option ν
  | served value _ => some value
  | _ => none

/-- Whether a caller computed the value it has. -/
def ran : Caller ν → Bool
  | served _ ran => ran
  | _ => false

/-- A turn of a caller that wants `key` and computes `value` for it. -/
def step (key : κ) (value : ν) (cache : Cache κ ν) : Caller ν → Caller ν × Cache κ ν
  | asking =>
    match cache.ask key with
    | .found value cache => (served value false, cache)
    | .busy => (asking, cache)
    | .claimed cache => (computing, cache)
  | computing => (storing, cache.insert key value)
  | storing => (served value true, cache.settle key)
  | served value ran => (served value ran, cache)

end Caller

/-- Callers, and the cache that they share. -/
structure Crew (κ ν : Type) [DecidableEq κ] [Hashable κ] where
  callers : List (Caller ν)
  cache : Cache κ ν

namespace Crew

/-- Give the caller with the given number a turn. -/
def turn (key : κ) (value : ν) (crew : Crew κ ν) (number : Nat) : Crew κ ν :=
  match crew.callers[number]? with
  | some caller =>
    let (caller, cache) := caller.step key value crew.cache
    ⟨crew.callers.set number caller, cache⟩
  | none => crew

/-- Turns in the order of a schedule. -/
def run (key : κ) (value : ν) (crew : Crew κ ν) (schedule : List Nat) : Crew κ ν :=
  schedule.foldl (turn key value) crew

/-- As many turns in a row for each of `n` callers as it takes to be served. -/
def round (n : Nat) : List Nat := (List.range n).flatMap (List.replicate 3)

end Crew

/-- Let `callers` callers get or compute the value of a key at once.  They take turns
as scheduled; who is not served then comes up again in order, and once more for those
who had to wait. -/
def getTogether (cache : Cache κ ν) (key : κ) (value : ν) (callers : Nat)
    (schedule : List Nat) : Crew κ ν :=
  Crew.run key value ⟨List.replicate callers .asking, cache⟩
    (schedule ++ Crew.round callers ++ Crew.round callers)

/-! ### Requests -/

/-- Something to ask of a cache. -/
inductive Request (κ ν : Type) where
  | get (key : κ)
  | insert (key : κ) (value : ν)
  /-- Get a value or compute it. -/
  | compute (key : κ) (value : ν)
  /-- Get a value or compute it from that of another key, which is got or computed
  in turn. -/
  | computeFrom (key inner : κ) (value : ν) (next : ν → ν)
  /-- Get a value or break down while computing it. -/
  | computeBroken (key : κ)
  /-- Get or compute a value as several callers at once. -/
  | computeTogether (key : κ) (value : ν) (callers : Nat) (schedule : List Nat)
  | clear

/-- What comes back. -/
inductive Reply (ν : Type) where
  /-- The value, if there is one. -/
  | value (value : Option ν)
  /-- The value, and whether it had to be computed. -/
  | computed (value : Option ν) (ran : Bool)
  /-- The value of each caller, and how many of them had to compute it. -/
  | together (values : List ν) (runs : Nat)
  | done
deriving DecidableEq, Repr

/-- Answer a request. -/
def respond (cache : Cache κ ν) : Request κ ν → Reply ν × Cache κ ν
  | .get key =>
    let (found, cache) := cache.get key
    (.value found, cache)
  | .insert key value => (.done, cache.insert key value)
  | .compute key value =>
    let ran := (cache.find? key).isNone
    let (got, cache) := cache.getOrCompute? key (giving value)
    (.computed got ran, cache)
  | .computeFrom key inner value next =>
    let (got, cache) := cache.getOrCompute? key (derived inner value next)
    (.value got, cache)
  | .computeBroken key =>
    let (got, cache) := cache.getOrCompute? key breaking
    (.value got, cache)
  | .computeTogether key value callers schedule =>
    let crew := cache.getTogether key value callers schedule
    (.together (crew.callers.filterMap Caller.value?) (crew.callers.countP Caller.ran), crew.cache)
  | .clear => (.done, cache.clear)

end Scrutiny.Cache
