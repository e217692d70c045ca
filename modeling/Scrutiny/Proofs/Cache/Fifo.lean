/-
A bounded cache is a store that forgets first what came in first.

The reference never throws a key away.  It keeps the list of all keys that were stored
while they were absent, and what was stored last under each key; of that list only the
last few count as resident.  `Refines` ties a cache to such a history: the queue is the
end of the list, and the values found are the ones stored last.  Storing keeps the two
together whether it replaces, adds, or has to put a key out, and every request is made
of storing and counting.

A computation may go back to the cache for another key, and store it while its own key is
pending.  Nothing here depends on the keys that are pending but the turn of who may
compute, so the lemma about one computation covers what happens inside it.
-/
import Mathlib.Data.List.DropRight
import Scrutiny.Proofs.Cache.Queue
import Scrutiny.Proofs.Cache.Schedules

namespace Scrutiny

/-! ### The reference -/

/-- A history of what was stored, with the counts of a cache. -/
structure Fifo (κ ν : Type) where
  /-- The keys stored since everything was last cleared that were absent then, oldest
  first.  A key that was put out and stored again is in the list again. -/
  fresh : List κ
  /-- What was stored last under each key since then. -/
  stored : κ → Option ν
  hits : Nat
  misses : Nat
  evictions : Nat

namespace Fifo

variable {κ ν : Type} [DecidableEq κ]

/-- Nothing stored, nothing counted. -/
def empty : Fifo κ ν := ⟨[], fun _ => none, 0, 0, 0⟩

/-- The keys that are there when there is room for so many: the last that were fresh. -/
def resident (room : Nat) (fifo : Fifo κ ν) : List κ := fifo.fresh.rtake room

/-- The value stored last under a key, if the key is there. -/
def find? (room : Nat) (fifo : Fifo κ ν) (key : κ) : Option ν :=
  if key ∈ fifo.resident room then fifo.stored key else none

def hit (fifo : Fifo κ ν) : Fifo κ ν := { fifo with hits := fifo.hits + 1 }

def miss (fifo : Fifo κ ν) : Fifo κ ν := { fifo with misses := fifo.misses + 1 }

/-- Store a value.  The key is fresh if it is not there, and if there is no room it
costs another one its place. -/
def store (room : Nat) (fifo : Fifo κ ν) (key : κ) (value : ν) : Fifo κ ν :=
  let stored := Function.update fifo.stored key (some value)
  if key ∈ fifo.resident room then { fifo with stored }
  else
    { fifo with
      fresh := fifo.fresh ++ [key]
      stored
      evictions := if fifo.fresh.length < room then fifo.evictions else fifo.evictions + 1 }

/-- Look a key up, or else compute its value and store it. -/
def getOr (room : Nat) (fifo : Fifo κ ν) (key : κ) (compute : Fifo κ ν → Option ν × Fifo κ ν) :
    Option ν × Fifo κ ν :=
  match fifo.find? room key with
  | some value => (some value, fifo.hit)
  | none =>
    match compute fifo.miss with
    | (some value, fifo) => (some value, fifo.store room key value)
    | (none, fifo) => (none, fifo)

/-- A computation that gives a value. -/
def giving (value : ν) (fifo : Fifo κ ν) : Option ν × Fifo κ ν := (some value, fifo)

/-- A computation that breaks down. -/
def breaking (fifo : Fifo κ ν) : Option ν × Fifo κ ν := (none, fifo)

/-- A computation that gets or computes the value of another key and goes on from there. -/
def derived (room : Nat) (inner : κ) (value : ν) (next : ν → ν) (fifo : Fifo κ ν) :
    Option ν × Fifo κ ν :=
  let (got, fifo) := fifo.getOr room inner (giving value)
  (got.map next, fifo)

open Cache in
/-- Answer a request.  Callers that come together are as good as callers in a row. -/
def respond (room : Nat) (fifo : Fifo κ ν) : Request κ ν → Reply ν × Fifo κ ν
  | .get key =>
    let (got, fifo) := fifo.getOr room key breaking
    (.value got, fifo)
  | .insert key value => (.done, fifo.store room key value)
  | .compute key value =>
    let ran := (fifo.find? room key).isNone
    let (got, fifo) := fifo.getOr room key (giving value)
    (.computed got ran, fifo)
  | .computeFrom key inner value next =>
    let (got, fifo) := fifo.getOr room key (derived room inner value next)
    (.value got, fifo)
  | .computeBroken key =>
    let (got, fifo) := fifo.getOr room key breaking
    (.value got, fifo)
  | .computeTogether key value callers _ =>
    let found := fifo.find? room key
    (.together (List.replicate callers (found.getD value))
      (if found = none ∧ 0 < callers then 1 else 0),
      (fun fifo => (fifo.getOr room key (giving value)).2)^[callers] fifo)
  | .clear => (.done, { fifo with fresh := [], stored := fun _ => none })

theorem store_of_mem {room : Nat} {fifo : Fifo κ ν} {key : κ} {value : ν}
    (hmem : key ∈ fifo.resident room) :
    fifo.store room key value =
      { fifo with stored := Function.update fifo.stored key (some value) } :=
  if_pos hmem

theorem store_of_notMem {room : Nat} {fifo : Fifo κ ν} {key : κ} {value : ν}
    (habsent : key ∉ fifo.resident room) :
    fifo.store room key value =
      { fifo with
        fresh := fifo.fresh ++ [key]
        stored := Function.update fifo.stored key (some value)
        evictions := if fifo.fresh.length < room then fifo.evictions else fifo.evictions + 1 } :=
  if_neg habsent

/-! ### The end of a list -/

omit [DecidableEq κ] in
/-- A list grows at the end by one key, and what was last before loses its first key if
that is one too many. -/
theorem resident_append (fifo : Fifo κ ν) {room : Nat} (hroom : 0 < room) (key : κ) :
    (fifo.fresh ++ [key]).rtake room =
      (if fifo.fresh.length < room then fifo.resident room else (fifo.resident room).tail) ++
        [key] := by
  obtain ⟨r, rfl⟩ : ∃ r, room = r + 1 := ⟨room - 1, by omega⟩
  rw [List.rtake_concat_succ, resident]
  unfold List.rtake
  split
  · rename_i hlt
    rw [Nat.sub_eq_zero_of_le (Nat.le_of_lt_succ hlt), Nat.sub_eq_zero_of_le (Nat.le_of_lt hlt)]
  · rename_i hge
    rw [List.tail_drop, show fifo.fresh.length - (r + 1) + 1 = fifo.fresh.length - r by omega]

omit [DecidableEq κ] in
theorem length_resident (fifo : Fifo κ ν) (room : Nat) :
    (fifo.resident room).length = min room fifo.fresh.length := by
  rw [resident, List.rtake, List.length_drop]
  omega

end Fifo

namespace Cache

variable {κ ν : Type} [DecidableEq κ] [Hashable κ]

/-! ### A cache and its history -/

/-- A cache is what is left of a history. -/
structure Refines (room : Nat) (cache : Cache κ ν) (fifo : Fifo κ ν) : Prop where
  sound : cache.Sound
  capacity : cache.capacity = room
  order : cache.order = fifo.resident room
  values : ∀ key ∈ cache.order, cache.find? key = fifo.stored key
  hits : cache.hits = fifo.hits
  misses : cache.misses = fifo.misses
  evictions : cache.evictions = fifo.evictions

variable {room : Nat} {cache : Cache κ ν} {fifo : Fifo κ ν} {key : κ} {value : ν}

theorem refines_empty (capacity : Nat) :
    Refines (max capacity 1) (empty capacity : Cache κ ν) Fifo.empty where
  sound := sound_empty capacity
  capacity := rfl
  order := by simp [empty, Fifo.empty, Fifo.resident, List.rtake]
  values := by simp [empty]
  hits := rfl
  misses := rfl
  evictions := rfl

variable (h : Refines room cache fifo)

include h

theorem Refines.find?_eq (key : κ) : cache.find? key = fifo.find? room key := by
  unfold Fifo.find?
  rw [← h.order]
  split
  · rename_i hmem
    exact h.values key hmem
  · rename_i habsent
    exact h.sound.find?_eq_none_iff.mpr habsent

omit h in
/-- A table with a new value for a key, beside what was stored last. -/
theorem find?_put {table : Std.HashMap κ ν} {stored : κ → Option ν} {other : κ}
    (hsame : other ≠ key → table[other]? = stored other) :
    (table.insert key value)[other]? = Function.update stored key (some value) other := by
  rw [Std.HashMap.getElem?_insert]
  by_cases hkey : other = key
  · subst hkey
    simp
  · rw [Function.update_of_ne hkey, if_neg (by simpa using Ne.symm hkey)]
    exact hsame hkey

theorem Refines.hit :
    Refines room { cache with hits := cache.hits + 1 } fifo.hit :=
  ⟨h.sound.congr rfl rfl rfl, h.capacity, h.order, h.values, congrArg (· + 1) h.hits, h.misses,
    h.evictions⟩

theorem Refines.claim (key : κ) : Refines room (cache.claim key) fifo.miss :=
  ⟨h.sound.congr rfl rfl rfl, h.capacity, h.order, h.values, h.hits, congrArg (· + 1) h.misses,
    h.evictions⟩

theorem Refines.settle (key : κ) : Refines room (cache.settle key) fifo :=
  ⟨h.sound.congr rfl rfl rfl, h.capacity, h.order, h.values, h.hits, h.misses, h.evictions⟩

theorem Refines.clear :
    Refines room cache.clear { fifo with fresh := [], stored := fun _ => none } where
  sound := h.sound.clear
  capacity := h.capacity
  order := by simp [Cache.clear, Fifo.resident, List.rtake]
  values := by simp [Cache.clear]
  hits := h.hits
  misses := h.misses
  evictions := h.evictions

/-- **Storing keeps a cache and its history together.** -/
theorem Refines.insert (key : κ) (value : ν) :
    Refines room (cache.insert key value) (fifo.store room key value) := by
  have hroom : 0 < room := h.capacity ▸ h.sound.roomy
  have hlength : cache.size = min room fifo.fresh.length := by
    rw [← h.sound.length, h.order, Fifo.length_resident]
  have hcapacity := h.capacity
  have hsound := h.sound.insert key value
  rcases h.sound.insert_cases key value with ⟨hmem, heq⟩ | ⟨habsent, hless, heq⟩ |
    ⟨habsent, oldest, rest, hfull, horder, heq⟩
  · rw [heq] at hsound ⊢
    rw [Fifo.store_of_mem (h.order ▸ hmem)]
    refine ⟨hsound, h.capacity, h.order, fun other hother => ?_, h.hits, h.misses, h.evictions⟩
    exact find?_put fun _ => h.values other hother
  · have hlt : fifo.fresh.length < room := by omega
    rw [heq] at hsound ⊢
    rw [Fifo.store_of_notMem (h.order ▸ habsent), if_pos hlt]
    refine ⟨hsound, h.capacity, ?_, fun other hother => ?_, h.hits, h.misses, h.evictions⟩
    · show cache.order ++ [key] = (fifo.fresh ++ [key]).rtake room
      rw [Fifo.resident_append fifo hroom, if_pos hlt, h.order]
    · refine find?_put fun hne => h.values other ?_
      exact (List.mem_append.mp hother).resolve_right fun hlast => hne (List.mem_singleton.mp hlast)
  · have hge : ¬ fifo.fresh.length < room := by omega
    rw [heq] at hsound ⊢
    rw [Fifo.store_of_notMem (h.order ▸ habsent), if_neg hge]
    refine ⟨hsound, h.capacity, ?_, fun other hother => ?_, h.hits, h.misses,
      congrArg (· + 1) h.evictions⟩
    · show rest ++ [key] = (fifo.fresh ++ [key]).rtake room
      rw [Fifo.resident_append fifo hroom, if_neg hge, ← h.order, horder, List.tail_cons]
    · refine find?_put fun hne => ?_
      have hrest : other ∈ rest :=
        (List.mem_append.mp hother).resolve_right fun hlast => hne (List.mem_singleton.mp hlast)
      have hne' : oldest ≠ other := by
        rintro rfl
        have hnodup := h.sound.nodup
        rw [horder] at hnodup
        exact (List.nodup_cons.mp hnodup).1 hrest
      show (cache.table.erase oldest)[other]? = fifo.stored other
      rw [Std.HashMap.getElem?_erase, if_neg (by simpa using hne')]
      exact h.values other (horder ▸ List.mem_cons_of_mem oldest hrest)

/-! ### Computations -/

/-- **Getting or computing a value**, as far as the computation itself goes along with
the history.  The key must not be pending, and afterwards what was pending before is. -/
theorem Refines.getOrCompute? (hfree : key ∉ cache.pending)
    {compute : Cache κ ν → Option ν × Cache κ ν} {reference : Fifo κ ν → Option ν × Fifo κ ν}
    (hcompute : Refines room (cache.claim key) fifo.miss →
      (compute (cache.claim key)).1 = (reference fifo.miss).1 ∧
        Refines room (compute (cache.claim key)).2 (reference fifo.miss).2 ∧
        (compute (cache.claim key)).2.pending = key :: cache.pending) :
    (cache.getOrCompute? key compute).1 = (fifo.getOr room key reference).1 ∧
      Refines room (cache.getOrCompute? key compute).2 (fifo.getOr room key reference).2 ∧
      (cache.getOrCompute? key compute).2.pending = cache.pending := by
  have hfind := h.find?_eq key
  cases hfound : cache.find? key with
  | some found =>
    rw [hfound] at hfind
    have hgetOr : fifo.getOr room key reference = (some found, fifo.hit) := by
      simp only [Fifo.getOr, ← hfind]
    rw [getOrCompute?_of_found hfound, hgetOr]
    exact ⟨rfl, h.hit, rfl⟩
  | none =>
    rw [hfound] at hfind
    obtain ⟨hvalue, hafter, hpending⟩ := hcompute (h.claim key)
    rcases hreference : reference fifo.miss with ⟨got, later⟩
    rw [hreference] at hvalue hafter
    cases got with
    | some got =>
      have hgetOr : fifo.getOr room key reference = (some got, later.store room key got) := by
        simp only [Fifo.getOr, ← hfind, hreference]
      rw [getOrCompute?_of_some hfound hfree hvalue, hgetOr]
      refine ⟨rfl, (hafter.insert key got).settle key, ?_⟩
      show ((compute (cache.claim key)).2.insert key got).pending.erase key = cache.pending
      rw [insert_pending, hpending, List.erase_cons_head]
    | none =>
      have hgetOr : fifo.getOr room key reference = (none, later) := by
        simp only [Fifo.getOr, ← hfind, hreference]
      rw [getOrCompute?_of_none hfound hfree hvalue, hgetOr]
      refine ⟨rfl, hafter.settle key, ?_⟩
      show (compute (cache.claim key)).2.pending.erase key = cache.pending
      rw [hpending, List.erase_cons_head]

/-- Looking a key up is computing it in vain. -/
theorem Refines.get (key : κ) : (cache.get key).1 = (fifo.getOr room key Fifo.breaking).1 ∧
      Refines room (cache.get key).2 (fifo.getOr room key Fifo.breaking).2 := by
  have hfind := h.find?_eq key
  cases hfound : cache.find? key with
  | some found =>
    rw [hfound] at hfind
    have hgetOr : fifo.getOr room key Fifo.breaking = (some found, fifo.hit) := by
      simp only [Fifo.getOr, ← hfind]
    rw [hgetOr]
    simp only [Cache.get, hfound]
    exact ⟨trivial, h.hit⟩
  | none =>
    rw [hfound] at hfind
    have hgetOr : fifo.getOr room key Fifo.breaking = (none, fifo.miss) := by
      simp only [Fifo.getOr, ← hfind, Fifo.breaking]
    rw [hgetOr]
    simp only [Cache.get, hfound]
    refine ⟨trivial, ?_⟩
    -- A claim that is settled at once is a miss.
    have hmiss := (h.claim key).settle key
    exact ⟨h.sound.congr rfl rfl rfl, hmiss.capacity, hmiss.order, hmiss.values, hmiss.hits,
      hmiss.misses, hmiss.evictions⟩

/-- A computation that gives a value, whatever is pending. -/
theorem Refines.compute (hfree : key ∉ cache.pending) (value : ν) :
    (cache.getOrCompute? key (giving value)).1 = (fifo.getOr room key (Fifo.giving value)).1 ∧
      Refines room (cache.getOrCompute? key (giving value)).2
        (fifo.getOr room key (Fifo.giving value)).2 ∧
      (cache.getOrCompute? key (giving value)).2.pending = cache.pending :=
  h.getOrCompute? hfree fun hclaim => ⟨rfl, hclaim, rfl⟩

/-- A computation that breaks down. -/
theorem Refines.computeBroken (hfree : key ∉ cache.pending) :
    (cache.getOrCompute? key breaking).1 = (fifo.getOr room key Fifo.breaking).1 ∧
      Refines room (cache.getOrCompute? key breaking).2 (fifo.getOr room key Fifo.breaking).2 ∧
      (cache.getOrCompute? key breaking).2.pending = cache.pending :=
  h.getOrCompute? hfree fun hclaim => ⟨rfl, hclaim, rfl⟩

/-- A computation that goes back to the cache for another key. -/
theorem Refines.computeFrom (hfree : key ∉ cache.pending) {inner : κ}
    (hinner : inner ∉ key :: cache.pending) (value : ν) (next : ν → ν) :
    (cache.getOrCompute? key (derived inner value next)).1 =
        (fifo.getOr room key (Fifo.derived room inner value next)).1 ∧
      Refines room (cache.getOrCompute? key (derived inner value next)).2
        (fifo.getOr room key (Fifo.derived room inner value next)).2 ∧
      (cache.getOrCompute? key (derived inner value next)).2.pending = cache.pending := by
  refine h.getOrCompute? hfree fun hclaim => ?_
  -- Inside, the outer key is pending and the inner one is not.
  obtain ⟨hgot, hafter, hpending⟩ := hclaim.compute hinner value
  exact ⟨congrArg (Option.map next) hgot, hafter, hpending⟩

/-- Callers in a row. -/
theorem Refines.oneByOne (hfree : key ∉ cache.pending) (value : ν)
    (n : Nat) : Refines room (cache.oneByOne key value n)
      ((fun fifo => (fifo.getOr room key (Fifo.giving value)).2)^[n] fifo) := by
  induction n with
  | zero => exact h
  | succ n ih =>
    rw [oneByOne_succ, Function.iterate_succ_apply']
    refine (ih.compute ?_ value).2.1
    rw [(oneByOne_found hfree value n).1]
    exact hfree

/-! ### Requests -/

omit h in
/-- No computation asks for its own key. -/
def Request.keysApart : Request κ ν → Bool
  | .computeFrom key inner _ _ => inner ≠ key
  | _ => true

/-- **Every request is answered from the history.** -/
theorem Refines.respond (hidle : cache.pending = [])
    {request : Request κ ν} (hapart : request.keysApart = true) :
    (cache.respond request).1 = (fifo.respond room request).1 ∧
      Refines room (cache.respond request).2 (fifo.respond room request).2 ∧
      (cache.respond request).2.pending = [] := by
  have hfree : ∀ key, key ∉ cache.pending := by
    intro key
    rw [hidle]
    exact List.not_mem_nil
  cases request with
  | get key =>
    obtain ⟨hgot, hafter⟩ := h.get key
    refine ⟨congrArg Reply.value hgot, hafter, ?_⟩
    show (cache.get key).2.pending = []
    rw [← hidle, Cache.get]
    split <;> rfl
  | insert key value =>
    refine ⟨rfl, h.insert key value, ?_⟩
    show (cache.insert key value).pending = []
    rw [insert_pending, hidle]
  | compute key value =>
    obtain ⟨hgot, hafter, hpending⟩ := h.compute (hfree key) value
    have hran : (cache.find? key).isNone = (fifo.find? room key).isNone := by rw [h.find?_eq key]
    exact ⟨congrArg₂ Reply.computed hgot hran, hafter, hpending.trans hidle⟩
  | computeFrom key inner value next =>
    have hne : inner ≠ key := by simpa [Request.keysApart] using hapart
    have hinner : inner ∉ key :: cache.pending := by
      rw [hidle]
      exact fun hmem => hne (List.mem_singleton.mp hmem)
    obtain ⟨hgot, hafter, hpending⟩ := h.computeFrom (hfree key) hinner value next
    exact ⟨congrArg Reply.value hgot, hafter, hpending.trans hidle⟩
  | computeBroken key =>
    obtain ⟨hgot, hafter, hpending⟩ := h.computeBroken (hfree key)
    exact ⟨congrArg Reply.value hgot, hafter, hpending.trans hidle⟩
  | computeTogether key value callers schedule =>
    obtain ⟨hcache, hvalues, hruns⟩ := getTogether_eq (hfree key) callers schedule
    refine ⟨?_, ?_, ?_⟩
    · show Reply.together _ _ = Reply.together _ _
      rw [hvalues, hruns, shared, h.find?_eq key]
    · show Refines room (cache.getTogether key value callers schedule).cache _
      rw [hcache]
      exact h.oneByOne (hfree key) value callers
    · show (cache.getTogether key value callers schedule).cache.pending = []
      rw [hcache, (oneByOne_found (hfree key) value callers).1, hidle]
  | clear => exact ⟨rfl, h.clear, hidle⟩

/-! ### Every request is made of steps -/

variable {capacity : Nat}

omit h

theorem Reached.ask_found {found : ν} {after : Cache κ ν} (h : Reached capacity cache)
    (hask : cache.ask key = .found found after) : Reached capacity after := by
  have hget := h.get key
  cases hfind : cache.find? key with
  | some value =>
    rw [ask_of_found hfind] at hask
    cases hask
    simpa only [Cache.get, hfind] using hget
  | none =>
    simp only [ask, hfind] at hask
    split at hask <;> cases hask

theorem Reached.ask_claimed {after : Cache κ ν} (h : Reached capacity cache)
    (hask : cache.ask key = .claimed after) : Reached capacity after := by
  unfold ask at hask
  split at hask
  · cases hask
  · split at hask
    · cases hask
    · cases hask
      exact h.claim key

theorem Reached.getOrCompute? (h : Reached capacity cache) (key : κ)
    {compute : Cache κ ν → Option ν × Cache κ ν}
    (hcompute : ∀ claimed, Reached capacity claimed → Reached capacity (compute claimed).2) :
    Reached capacity (cache.getOrCompute? key compute).2 := by
  unfold Cache.getOrCompute?
  split
  · rename_i found after hask
    exact h.ask_found hask
  · exact h
  · rename_i claimed hask
    have hafter := hcompute claimed (h.ask_claimed hask)
    split
    · rename_i value after hgot
      rw [hgot] at hafter
      exact (hafter.insert key value).settle key
    · rename_i after hgot
      rw [hgot] at hafter
      exact hafter.settle key

theorem Reached.compute (h : Reached capacity cache) (key : κ) (value : ν) :
    Reached capacity (cache.getOrCompute? key (giving value)).2 :=
  h.getOrCompute? key fun _ hclaimed => hclaimed

theorem Reached.turn {crew : Crew κ ν} (h : Reached capacity crew.cache) (number : Nat) :
    Reached capacity (crew.turn key value number).cache := by
  unfold Crew.turn
  split
  · rename_i caller _
    show Reached capacity (caller.step key value crew.cache).2
    cases caller with
    | asking =>
      simp only [Caller.step]
      split
      · rename_i found after hask
        exact h.ask_found hask
      · exact h
      · rename_i claimed hask
        exact h.ask_claimed hask
    | computing => exact h.insert key value
    | storing => exact h.settle key
    | served found ran => exact h
  · exact h

theorem Reached.run (schedule : List Nat) : ∀ {crew : Crew κ ν}, Reached capacity crew.cache →
      Reached capacity (crew.run key value schedule).cache := by
  induction schedule with
  | nil => intro crew h; exact h
  | cons number rest ih => intro crew h; exact ih (h.turn number)

theorem Reached.respond (h : Reached capacity cache) (request : Request κ ν) :
    Reached capacity (cache.respond request).2 := by
  cases request with
  | get key => exact h.get key
  | insert key value => exact h.insert key value
  | compute key value => exact h.compute key value
  | computeFrom key inner value next =>
    show Reached capacity (cache.getOrCompute? key (derived inner value next)).2
    exact h.getOrCompute? key fun claimed hclaimed => hclaimed.compute inner value
  | computeBroken key =>
    show Reached capacity (cache.getOrCompute? key breaking).2
    exact h.getOrCompute? key fun claimed hclaimed => hclaimed
  | computeTogether key value callers schedule => exact Reached.run _ h
  | clear => exact h.clear

/-! ### Whole runs -/

/-- Answer requests in a row. -/
def serve (cache : Cache κ ν) : List (Request κ ν) → List (Reply ν) × Cache κ ν
  | [] => ([], cache)
  | request :: requests =>
    let (reply, cache) := cache.respond request
    let (replies, cache) := cache.serve requests
    (reply :: replies, cache)

end Cache

/-- Answer requests in a row. -/
def Fifo.serve {κ ν : Type} [DecidableEq κ] (room : Nat) (fifo : Fifo κ ν) :
    List (Cache.Request κ ν) → List (Cache.Reply ν) × Fifo κ ν
  | [] => ([], fifo)
  | request :: requests =>
    let (reply, fifo) := fifo.respond room request
    let (replies, fifo) := fifo.serve room requests
    (reply :: replies, fifo)

namespace Cache

variable {κ ν : Type} [DecidableEq κ] [Hashable κ] {room capacity : Nat}

theorem Refines.serve (requests : List (Request κ ν)) :
    ∀ {cache : Cache κ ν} {fifo : Fifo κ ν}, Refines room cache fifo → cache.pending = [] →
      (∀ request ∈ requests, request.keysApart = true) →
      (cache.serve requests).1 = (fifo.serve room requests).1 ∧
        Refines room (cache.serve requests).2 (fifo.serve room requests).2 ∧
        (cache.serve requests).2.pending = [] := by
  induction requests with
  | nil => intro cache fifo h hidle _; exact ⟨rfl, h, hidle⟩
  | cons request requests ih =>
    intro cache fifo h hidle hapart
    obtain ⟨hreply, hnext, hrest⟩ := h.respond hidle (hapart request List.mem_cons_self)
    obtain ⟨hreplies, hlast, hpending⟩ := ih hnext hrest fun later hlater =>
      hapart later (List.mem_cons_of_mem request hlater)
    exact ⟨congrArg₂ List.cons hreply hreplies, hlast, hpending⟩

theorem Reached.serve (requests : List (Request κ ν)) :
    ∀ {cache : Cache κ ν}, Reached capacity cache → Reached capacity (cache.serve requests).2 := by
  induction requests with
  | nil => intro cache h; exact h
  | cons request requests ih => intro cache h; exact ih (h.respond request)

/-- Making room for a new key takes no round, or one that finds a key to put out. -/
def RoomInOneRound (cache : Cache κ ν) : Prop :=
  (cache.size < cache.capacity ∧ cache.makeRoom = cache) ∨
    ∃ next, ¬ cache.size < cache.capacity ∧ cache.evictOldest? = some next ∧
      next.size < next.capacity ∧ cache.makeRoom = next

/-- What a cache of some capacity is between requests, beside the history of what was
stored. -/
structure IsFifo (capacity : Nat) (cache : Cache κ ν) (fifo : Fifo κ ν) : Prop where
  /-- The queue has no key twice. -/
  nodup : cache.order.Nodup
  /-- The queue has the keys of the table and no others. -/
  keys : ∀ key, key ∈ cache.order ↔ key ∈ cache.table
  /-- There are never too many entries. -/
  bounded : cache.size ≤ max capacity 1
  /-- No computation is left pending. -/
  idle : cache.pending = []
  /-- The queue is the last of the keys that were stored while absent. -/
  queue : cache.order = fifo.fresh.rtake (max capacity 1)
  /-- A key that is there has the value stored for it last. -/
  values : ∀ key ∈ cache.order,
    ∃ value, cache.find? key = some value ∧ fifo.stored key = some value
  /-- The counts are those of the history. -/
  stats : cache.stats =
    ⟨cache.order.length, max capacity 1, fifo.hits, fifo.misses, fifo.evictions⟩
  /-- Storing a key that is there moves and evicts nothing. -/
  again : ∀ key ∈ cache.order, ∀ value, (cache.insert key value).order = cache.order ∧
    (cache.insert key value).evictions = cache.evictions
  /-- A computation that breaks down counts as a miss, like looking the key up in vain, and
  does nothing else. -/
  broken : ∀ key ∉ cache.order,
    cache.getOrCompute? key breaking = (none, { cache with misses := cache.misses + 1 }) ∧
      cache.get key = (none, { cache with misses := cache.misses + 1 })

theorem Refines.isFifo {cache : Cache κ ν} {fifo : Fifo κ ν}
    (h : Refines (max capacity 1) cache fifo) (hidle : cache.pending = []) :
    IsFifo capacity cache fifo where
  nodup := h.sound.nodup
  keys := h.sound.keys
  bounded := h.capacity ▸ h.sound.fits
  idle := hidle
  queue := h.order
  values := by
    intro key hmem
    have hthere : cache.find? key ≠ none := fun hnone => h.sound.find?_eq_none_iff.mp hnone hmem
    obtain ⟨value, hvalue⟩ := Option.ne_none_iff_exists'.mp hthere
    exact ⟨value, hvalue, (h.values key hmem).symm.trans hvalue⟩
  stats := by
    rw [stats, h.sound.length, h.capacity, h.hits, h.misses, h.evictions]
  again := by
    intro key hmem value
    rw [Cache.insert, if_pos ((h.sound.keys key).mp hmem)]
    exact ⟨rfl, rfl⟩
  broken := by
    intro key habsent
    have hnone := h.sound.find?_eq_none_iff.mpr habsent
    have hfree : key ∉ cache.pending := by
      rw [hidle]
      exact List.not_mem_nil
    refine ⟨?_, by simp only [Cache.get, hnone]⟩
    rw [getOrCompute?_of_none hnone hfree rfl]
    show (none, { cache with
      misses := cache.misses + 1
      pending := (key :: cache.pending).erase key }) = _
    rw [List.erase_cons_head]

/--
**A bounded cache is a first-in-first-out store.**  Whatever the capacity and the
requests, as long as no computation asks for its own key, the replies are those of the
reference, and between requests the cache is what is left of the history.  At all times,
also in the middle of computations, making room takes at most one round and never finds
the queue empty.
-/
theorem serve_isFifo (capacity : Nat) (requests : List (Request κ ν))
    (hapart : ∀ request ∈ requests, request.keysApart = true) :
    ((empty capacity).serve requests).1 = (Fifo.empty.serve (max capacity 1) requests).1 ∧
      IsFifo capacity ((empty capacity).serve requests).2
        (Fifo.empty.serve (max capacity 1) requests).2 ∧
      Reached capacity ((empty capacity).serve requests).2 ∧
      ∀ state : Cache κ ν, Reached capacity state → state.RoomInOneRound := by
  obtain ⟨hreplies, hlast, hidle⟩ := (refines_empty capacity).serve requests rfl hapart
  refine ⟨hreplies, hlast.isFifo hidle, Reached.empty.serve requests, fun state hstate => ?_⟩
  rcases hstate.sound.makeRoom_cases with hroom | ⟨oldest, rest, hfull, horder, hless, hmade⟩
  · exact Or.inl hroom
  · exact Or.inr ⟨_, by omega, evictOldest?_cons horder, hless, hmade⟩

/-- With room for one entry, what a computation stores on its way is put out by its own
result. -/
theorem serve_isFifo_one_entry :
    let requests : List (Request Nat Nat) :=
      [.insert 1 10, .computeFrom 2 3 5 (· + 1), .computeTogether 2 7 3 [2, 0, 1, 1],
        .computeBroken 4, .insert 2 8, .get 3, .computeTogether 3 9 2 [1, 0, 1, 0]]
    (∀ request ∈ requests, request.keysApart = true) ∧
      ((empty 0).serve requests).1 =
        [.done, .value (some 6), .together [6, 6, 6] 0, .value none, .done, .value none,
          .together [9, 9] 1] ∧
      ((empty 0).serve requests).2.order = [3] ∧
      ((empty 0).serve requests).2.stats = ⟨1, 1, 4, 5, 3⟩ ∧
      ∀ state : Cache Nat Nat, Reached 0 state → state.RoomInOneRound := by
  intro requests
  have hapart : ∀ request ∈ requests, request.keysApart = true := by decide
  obtain ⟨hreplies, hfifo, -, hrounds⟩ := serve_isFifo 0 requests hapart
  have hqueue : ((empty 0).serve requests).2.order = [3] := hfifo.queue.trans (by decide)
  refine ⟨hapart, hreplies.trans (by decide), hqueue, ?_, hrounds⟩
  rw [hfifo.stats, hqueue]
  decide

end Cache

end Scrutiny
