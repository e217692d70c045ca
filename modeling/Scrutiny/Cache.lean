/-
Bounded caches.

A cache keeps at most `capacity` entries, at least one.  Values are kept in a table,
and their keys in a queue in the order in which they came in; a new key puts the
oldest one out.  Looking a key up or storing it again leaves the queue as it is.
Hits, misses and evictions are counted for the lifetime of the cache.

A value that is not there can be computed on the spot.  While that goes on its key
is pending: whoever else asks for the key waits, and other keys can be used freely,
by the computation too.
-/
import Std.Data.HashMap

namespace Scrutiny

/-- A cache from keys to values. -/
structure Cache (κ ν : Type) [DecidableEq κ] [Hashable κ] where
  /-- How many entries there may be. -/
  capacity : Nat
  /-- The values by their keys. -/
  table : Std.HashMap κ ν
  /-- The queue of keys, oldest first. -/
  order : List κ
  /-- The keys whose values are being computed. -/
  pending : List κ
  hits : Nat
  misses : Nat
  evictions : Nat

/-- What a cache tells about itself. -/
structure CacheStats where
  len : Nat
  capacity : Nat
  hits : Nat
  misses : Nat
  evictions : Nat
deriving DecidableEq, Repr

namespace Cache

variable {κ ν : Type} [DecidableEq κ] [Hashable κ]

/-- An empty cache; a capacity of zero counts as one. -/
def empty (capacity : Nat) : Cache κ ν := ⟨max capacity 1, ∅, [], [], 0, 0, 0⟩

/-- The value stored for a key, without counting. -/
def find? (cache : Cache κ ν) (key : κ) : Option ν := cache.table[key]?

/-- How many entries there are. -/
def size (cache : Cache κ ν) : Nat := cache.table.size

/-- Look a key up, and count a hit or a miss. -/
def get (cache : Cache κ ν) (key : κ) : Option ν × Cache κ ν :=
  match cache.find? key with
  | some value => (some value, { cache with hits := cache.hits + 1 })
  | none => (none, { cache with misses := cache.misses + 1 })

/-! ### Storing -/

/-- Put the oldest key out, if the queue has one. -/
def evictOldest? (cache : Cache κ ν) : Option (Cache κ ν) :=
  match cache.order with
  | [] => none
  | oldest :: rest =>
    some { cache with
      table := cache.table.erase oldest
      order := rest
      evictions := cache.evictions + 1 }

theorem evictOldest?_order_length {cache evicted : Cache κ ν}
    (h : cache.evictOldest? = some evicted) : evicted.order.length < cache.order.length := by
  unfold evictOldest? at h
  split at h
  · cases h
  · rename_i oldest rest horder
    cases h
    simp [horder]

/-- Put the oldest keys out for as long as there is no room for one more entry.  This
ends early if the queue runs out. -/
def makeRoom (cache : Cache κ ν) : Cache κ ν :=
  if cache.size < cache.capacity then cache
  else
    match _hevict : cache.evictOldest? with
    | none => cache
    | some evicted => evicted.makeRoom
termination_by cache.order.length
decreasing_by exact evictOldest?_order_length _hevict

/-- Store a value.  A key that is there keeps its place; a new one comes last, and
the oldest give way to it. -/
def insert (cache : Cache κ ν) (key : κ) (value : ν) : Cache κ ν :=
  if key ∈ cache.table then { cache with table := cache.table.insert key value }
  else
    let roomy := cache.makeRoom
    { roomy with table := roomy.table.insert key value, order := roomy.order ++ [key] }

/-- Drop every entry; the counts stay. -/
def clear (cache : Cache κ ν) : Cache κ ν := { cache with table := ∅, order := [] }

/-! ### Computing what is not there -/

/-- What becomes of a caller that asks for a key. -/
inductive Asked (κ ν : Type) [DecidableEq κ] [Hashable κ] where
  /-- The value is there. -/
  | found (value : ν) (cache : Cache κ ν)
  /-- The value is being computed, and the caller waits. -/
  | busy
  /-- The caller has to compute the value, and the key is pending until it is settled. -/
  | claimed (cache : Cache κ ν)

/-- Count a miss, and let a key be computed. -/
def claim (cache : Cache κ ν) (key : κ) : Cache κ ν :=
  { cache with misses := cache.misses + 1, pending := key :: cache.pending }

/-- Ask for a key: a hit, a wait, or a miss that claims the key. -/
def ask (cache : Cache κ ν) (key : κ) : Asked κ ν :=
  match cache.find? key with
  | some value => .found value { cache with hits := cache.hits + 1 }
  | none => if key ∈ cache.pending then .busy else .claimed (cache.claim key)

/-- A key is no longer being computed. -/
def settle (cache : Cache κ ν) (key : κ) : Cache κ ν :=
  { cache with pending := cache.pending.erase key }

/-- Look a key up, or else compute its value and store it.  The computation may use
the cache itself.  If it breaks down and gives no value, nothing is stored; whether it
does or not, the key is settled.  A computation that asks for its own key waits for
itself, and no value comes of that either. -/
def getOrCompute? (cache : Cache κ ν) (key : κ)
    (compute : Cache κ ν → Option ν × Cache κ ν) : Option ν × Cache κ ν :=
  match cache.ask key with
  | .found value cache => (some value, cache)
  | .busy => (none, cache)
  | .claimed cache =>
    match compute cache with
    | (some value, cache) => (some value, (cache.insert key value).settle key)
    | (none, cache) => (none, cache.settle key)

/-- The counts and sizes of a cache. -/
def stats (cache : Cache κ ν) : CacheStats :=
  ⟨cache.size, cache.capacity, cache.hits, cache.misses, cache.evictions⟩

end Cache

end Scrutiny
