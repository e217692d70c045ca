/-
The table and the queue of a cache.

The two are written by separate steps, and nothing but the order of these steps ties
them together.  `Sound` says what does not change: the queue holds every key of the
table once and no other, and there are never more entries than the capacity.  All
operations keep it, also between the steps of a computation, since it does not look at
the keys that are pending.

From it follows what storing does.  A new key finds at most one entry too many, so
`makeRoom` goes round at most once, and the queue is not empty then.
-/
import Scrutiny.Cache

namespace Scrutiny.Cache

variable {κ ν : Type} [DecidableEq κ] [Hashable κ]

/-- The table and the queue of a cache belong together. -/
structure Sound (cache : Cache κ ν) : Prop where
  /-- No key is queued twice. -/
  nodup : cache.order.Nodup
  /-- The keys in the queue are those of the table. -/
  keys : ∀ key, key ∈ cache.order ↔ key ∈ cache.table
  /-- There are as many of one as of the other. -/
  length : cache.order.length = cache.size
  /-- The capacity is never exceeded. -/
  fits : cache.size ≤ cache.capacity
  /-- There is room for something. -/
  roomy : 0 < cache.capacity

variable {cache : Cache κ ν} {key : κ} {value : ν}

theorem sound_empty (capacity : Nat) : (empty capacity : Cache κ ν).Sound where
  nodup := List.nodup_nil
  keys := by simp [empty]
  length := by simp [empty, size]
  fits := by simp [empty, size]
  roomy := Nat.le_max_right capacity 1

variable (h : cache.Sound)

include h

theorem Sound.clear : cache.clear.Sound where
  nodup := List.nodup_nil
  keys := by simp [Cache.clear]
  length := by simp [Cache.clear, size]
  fits := by simp [Cache.clear, size]
  roomy := h.roomy

/-- What is neither table nor queue does not matter. -/
theorem Sound.congr {other : Cache κ ν} (hcapacity : other.capacity = cache.capacity)
    (htable : other.table = cache.table) (horder : other.order = cache.order) : other.Sound where
  nodup := by rw [horder]; exact h.nodup
  keys := by rw [horder, htable]; exact h.keys
  length := by rw [horder, size, htable]; exact h.length
  fits := by rw [size, htable, hcapacity]; exact h.fits
  roomy := by rw [hcapacity]; exact h.roomy

omit h in
theorem find?_eq_none_iff : cache.find? key = none ↔ key ∉ cache.table := by
  simp [find?]

theorem Sound.find?_eq_none_iff : cache.find? key = none ↔ key ∉ cache.order := by
  rw [Cache.find?_eq_none_iff, h.keys]

theorem Sound.get (key : κ) : (cache.get key).2.Sound := by
  unfold Cache.get
  split
  · exact h.congr rfl rfl rfl
  · exact h.congr rfl rfl rfl

/-! ### Making room -/

omit h

/-- A cache whose oldest key was put out. -/
def evicted (cache : Cache κ ν) (oldest : κ) (rest : List κ) : Cache κ ν :=
  { cache with
    table := cache.table.erase oldest
    order := rest
    evictions := cache.evictions + 1 }

theorem evictOldest?_cons {oldest : κ} {rest : List κ} (horder : cache.order = oldest :: rest) :
    cache.evictOldest? = some (cache.evicted oldest rest) := by
  unfold evictOldest?
  split
  · rename_i hnil
    rw [hnil] at horder
    cases horder
  · rename_i other others hcons
    rw [hcons] at horder
    cases horder
    rfl

include h

/-- A full cache has an oldest key. -/
theorem Sound.order_cons (hfull : cache.size = cache.capacity) :
    ∃ oldest rest, cache.order = oldest :: rest := by
  cases horder : cache.order with
  | nil =>
    have hlength := h.length
    have hroomy := h.roomy
    rw [horder, List.length_nil] at hlength
    omega
  | cons oldest rest => exact ⟨oldest, rest, rfl⟩

/-- Without it there is one entry less. -/
theorem Sound.evicted_size {oldest : κ} {rest : List κ}
    (horder : cache.order = oldest :: rest) :
    (cache.evicted oldest rest).size + 1 = cache.size := by
  have hlength := h.length
  have hmem : oldest ∈ cache.table := (h.keys oldest).mp (by simp [horder])
  rw [horder, List.length_cons] at hlength
  show (cache.table.erase oldest).size + 1 = cache.size
  rw [Std.HashMap.size_erase, if_pos hmem]
  show cache.size - 1 + 1 = cache.size
  omega

omit h

theorem makeRoom_of_lt (hroom : cache.size < cache.capacity) : cache.makeRoom = cache := by
  rw [makeRoom, if_pos hroom]

theorem makeRoom_of_evict {next : Cache κ ν} (hfull : ¬ cache.size < cache.capacity)
    (hevict : cache.evictOldest? = some next) : cache.makeRoom = next.makeRoom := by
  rw [makeRoom, if_neg hfull]
  split
  · rename_i hnone
    rw [hevict] at hnone
    cases hnone
  · rename_i other hother
    rw [hevict] at hother
    cases hother
    rfl

theorem makeRoom_of_stuck (hfull : ¬ cache.size < cache.capacity)
    (hnone : cache.evictOldest? = none) : cache.makeRoom = cache := by
  rw [makeRoom, if_neg hfull]
  split
  · rfl
  · rename_i next hsome
    rw [hnone] at hsome
    cases hsome

include h

/-- **Room is made in one round or none.**  Either there is room, or the cache is full,
there is an oldest key to put out, and there is room then. -/
theorem Sound.makeRoom_cases : (cache.size < cache.capacity ∧ cache.makeRoom = cache) ∨
      ∃ oldest rest, cache.size = cache.capacity ∧ cache.order = oldest :: rest ∧
        (cache.evicted oldest rest).size < cache.capacity ∧
        cache.makeRoom = cache.evicted oldest rest := by
  by_cases hroom : cache.size < cache.capacity
  · exact Or.inl ⟨hroom, makeRoom_of_lt hroom⟩
  · have hfull : cache.size = cache.capacity := by
      have hfits := h.fits
      omega
    obtain ⟨oldest, rest, horder⟩ := h.order_cons hfull
    have hless : (cache.evicted oldest rest).size < cache.capacity := by
      have hsize := h.evicted_size horder
      omega
    refine Or.inr ⟨oldest, rest, hfull, horder, hless, ?_⟩
    rw [makeRoom_of_evict hroom (evictOldest?_cons horder), makeRoom_of_lt hless]

/-! ### Storing -/

omit h in
/-- A cache with a new entry at the end. -/
def appended (cache : Cache κ ν) (key : κ) (value : ν) : Cache κ ν :=
  { cache with table := cache.table.insert key value, order := cache.order ++ [key] }

/-- **What storing does.**  It replaces the value of a key that is there, or adds an
entry for one that is not, and in a full cache the oldest entry goes first. -/
theorem Sound.insert_cases (key : κ) (value : ν) :
    (key ∈ cache.order ∧
        cache.insert key value = { cache with table := cache.table.insert key value }) ∨
      (key ∉ cache.order ∧ cache.size < cache.capacity ∧
        cache.insert key value = cache.appended key value) ∨
      (key ∉ cache.order ∧ ∃ oldest rest, cache.size = cache.capacity ∧
        cache.order = oldest :: rest ∧
        cache.insert key value = (cache.evicted oldest rest).appended key value) := by
  unfold Cache.insert
  by_cases hkey : key ∈ cache.table
  · exact Or.inl ⟨(h.keys key).mpr hkey, if_pos hkey⟩
  · have habsent : key ∉ cache.order := fun hmem => hkey ((h.keys key).mp hmem)
    rw [if_neg hkey]
    rcases h.makeRoom_cases with ⟨hroom, hmade⟩ | ⟨oldest, rest, hfull, horder, -, hmade⟩
    · exact Or.inr (Or.inl ⟨habsent, hroom, by rw [hmade]; rfl⟩)
    · exact Or.inr (Or.inr ⟨habsent, oldest, rest, hfull, horder, by rw [hmade]; rfl⟩)

/-- A new entry at the end of a cache with room for it. -/
theorem Sound.appended (habsent : key ∉ cache.order)
    (hroom : cache.size < cache.capacity) (value : ν) : (cache.appended key value).Sound := by
  have hnew : key ∉ cache.table := fun hmem => habsent ((h.keys key).mpr hmem)
  have hsize : (cache.appended key value).size = cache.size + 1 := by
    show (cache.table.insert key value).size = cache.size + 1
    rw [Std.HashMap.size_insert, if_neg hnew]
    rfl
  refine ⟨?_, ?_, ?_, ?_, h.roomy⟩
  · exact List.nodup_append.mpr ⟨h.nodup, by simp,
      fun a ha b hb => by rintro rfl; exact habsent (List.mem_singleton.mp hb ▸ ha)⟩
  · intro other
    show other ∈ cache.order ++ [key] ↔ other ∈ cache.table.insert key value
    rw [List.mem_append, List.mem_singleton, Std.HashMap.mem_insert, h.keys other, beq_iff_eq]
    exact ⟨fun hmem => hmem.symm.imp Eq.symm id, fun hmem => hmem.symm.imp id Eq.symm⟩
  · rw [hsize, ← h.length]
    show (cache.order ++ [key]).length = cache.order.length + 1
    rw [List.length_append, List.length_singleton]
  · rw [hsize]
    exact hroom

/-- A cache without its oldest key. -/
theorem Sound.evicted {oldest : κ} {rest : List κ}
    (horder : cache.order = oldest :: rest) : (cache.evicted oldest rest).Sound := by
  have hsize := h.evicted_size horder
  have hnodup : oldest ∉ rest ∧ rest.Nodup := by
    have hqueue := h.nodup
    rw [horder] at hqueue
    exact List.nodup_cons.mp hqueue
  refine ⟨hnodup.2, ?_, ?_, ?_, h.roomy⟩
  · intro other
    show other ∈ rest ↔ other ∈ cache.table.erase oldest
    rw [Std.HashMap.mem_erase, ← h.keys other, horder, List.mem_cons, beq_eq_false_iff_ne]
    constructor
    · intro hmem
      exact ⟨fun heq => hnodup.1 (heq ▸ hmem), Or.inr hmem⟩
    · rintro ⟨hne, rfl | hmem⟩
      · exact absurd rfl hne
      · exact hmem
  · have hlength := h.length
    rw [horder, List.length_cons] at hlength
    show rest.length = (cache.evicted oldest rest).size
    omega
  · have hfits := h.fits
    show (cache.evicted oldest rest).size ≤ cache.capacity
    omega

theorem Sound.insert (key : κ) (value : ν) : (cache.insert key value).Sound := by
  rcases h.insert_cases key value with ⟨hmem, heq⟩ | ⟨habsent, hroom, heq⟩ |
    ⟨habsent, oldest, rest, hfull, horder, heq⟩
  · rw [heq]
    have hthere : key ∈ cache.table := (h.keys key).mp hmem
    have hsize : (cache.table.insert key value).size = cache.table.size := by
      rw [Std.HashMap.size_insert, if_pos hthere]
    refine ⟨h.nodup, ?_, ?_, ?_, h.roomy⟩
    · intro other
      show other ∈ cache.order ↔ other ∈ cache.table.insert key value
      rw [Std.HashMap.mem_insert, h.keys other, beq_iff_eq]
      exact ⟨Or.inr, fun hor => hor.elim (fun hkey => hkey ▸ hthere) id⟩
    · show cache.order.length = (cache.table.insert key value).size
      rw [hsize]
      exact h.length
    · show (cache.table.insert key value).size ≤ cache.capacity
      rw [hsize]
      exact h.fits
  · rw [heq]
    exact h.appended habsent hroom value
  · rw [heq]
    have hsize := h.evicted_size horder
    refine (h.evicted horder).appended ?_ ?_ value
    · intro hmem
      exact habsent (horder ▸ List.mem_cons_of_mem oldest hmem)
    · show (cache.evicted oldest rest).size < cache.capacity
      omega

/-- Storing looks nothing up. -/
theorem Sound.insert_counts (key : κ) (value : ν) : (cache.insert key value).hits = cache.hits ∧
      (cache.insert key value).misses = cache.misses := by
  rcases h.insert_cases key value with ⟨-, heq⟩ | ⟨-, -, heq⟩ | ⟨-, _, _, -, -, heq⟩ <;>
    rw [heq] <;>
    exact ⟨rfl, rfl⟩

/-- Storing a new key adds an entry or trades one for it. -/
theorem Sound.insert_balance (habsent : cache.find? key = none) (value : ν) :
    (cache.insert key value).size + (cache.insert key value).evictions =
      cache.size + cache.evictions + 1 := by
  have hnew := h.find?_eq_none_iff.mp habsent
  have hlast := (h.insert key value).length
  rcases h.insert_cases key value with ⟨hmem, -⟩ | ⟨-, -, heq⟩ | ⟨-, oldest, rest, -, horder, heq⟩
  · exact absurd hmem hnew
  · rw [heq] at hlast ⊢
    have horder : (cache.appended key value).order.length = cache.order.length + 1 := by
      simp [Cache.appended]
    have hevictions : (cache.appended key value).evictions = cache.evictions := rfl
    have hlength := h.length
    omega
  · rw [heq] at hlast ⊢
    have hqueue : ((cache.evicted oldest rest).appended key value).order.length =
        cache.order.length := by
      simp [Cache.appended, Cache.evicted, horder]
    have hevictions : ((cache.evicted oldest rest).appended key value).evictions =
        cache.evictions + 1 := rfl
    have hlength := h.length
    omega

/-! ### Everything that can happen to a cache -/

omit h

/-- The states of a cache, between requests and in the middle of them: whatever is done
to a cache is done by these steps. -/
inductive Reached (capacity : Nat) : Cache κ ν → Prop
  | empty : Reached capacity (empty capacity)
  | get {cache : Cache κ ν} (key : κ) : Reached capacity cache → Reached capacity (cache.get key).2
  | claim {cache : Cache κ ν} (key : κ) :
      Reached capacity cache → Reached capacity (cache.claim key)
  | insert {cache : Cache κ ν} (key : κ) (value : ν) :
      Reached capacity cache → Reached capacity (cache.insert key value)
  | settle {cache : Cache κ ν} (key : κ) :
      Reached capacity cache → Reached capacity (cache.settle key)
  | clear {cache : Cache κ ν} : Reached capacity cache → Reached capacity cache.clear

/-- **The table and the queue belong together at all times.** -/
theorem Reached.sound {capacity : Nat} (h : Reached capacity cache) : cache.Sound := by
  induction h with
  | empty => exact sound_empty capacity
  | get key _ ih => exact ih.get key
  | claim key _ ih => exact ih.congr rfl rfl rfl
  | insert key value _ ih => exact ih.insert key value
  | settle key _ ih => exact ih.congr rfl rfl rfl
  | clear _ ih => exact ih.clear

end Scrutiny.Cache
