/-
What a cache holds.

A cache is only as good as its entries.  `Holds P` says that every entry satisfies
`P`, and each operation is shown to keep it: looking up changes no entry, storing
adds or replaces one that satisfies `P` and otherwise only drops entries, and
clearing drops them all.  Which entries are dropped, and when, never matters.
-/
import Scrutiny.Cache

namespace Scrutiny.Cache

variable {κ ν : Type} [DecidableEq κ] [Hashable κ]

/-- Every entry of the cache satisfies `P`. -/
def Holds (P : κ → ν → Prop) (cache : Cache κ ν) : Prop :=
  ∀ key value, cache.find? key = some value → P key value

variable {P : κ → ν → Prop} {cache : Cache κ ν} {key : κ} {value : ν}

theorem holds_empty (capacity : Nat) : Holds P (empty capacity : Cache κ ν) := by
  intro key value hfind
  simp [empty, find?] at hfind

theorem holds_clear (cache : Cache κ ν) : Holds P cache.clear := by
  intro key value hfind
  simp [clear, find?] at hfind

/-- What is found under a key satisfies `P` there. -/
theorem Holds.of_find? (h : Holds P cache) (hfind : cache.find? key = some value) : P key value :=
  h key value hfind

/-! ### Looking up -/

/-- Looking up counts, and leaves the table alone. -/
theorem get_table (cache : Cache κ ν) (key : κ) : (cache.get key).2.table = cache.table := by
  unfold get
  split <;> rfl

theorem get_fst (cache : Cache κ ν) (key : κ) : (cache.get key).1 = cache.find? key := by
  unfold get
  split
  · rename_i value hfind
    exact hfind.symm
  · rename_i hfind
    exact hfind.symm

theorem Holds.get (h : Holds P cache) (key : κ) : Holds P (cache.get key).2 := by
  intro other value hfind
  rw [find?, get_table] at hfind
  exact h other value hfind

/-! ### Storing -/

/-- Putting a key out leaves the values of the others. -/
theorem find?_of_evictOldest? {evicted : Cache κ ν} (hevict : cache.evictOldest? = some evicted)
    (hfind : evicted.find? key = some value) : cache.find? key = some value := by
  unfold evictOldest? at hevict
  split at hevict
  · cases hevict
  · cases hevict
    rw [find?, Std.HashMap.getElem?_erase] at hfind
    split at hfind
    · cases hfind
    · exact hfind

theorem Holds.makeRoom (h : Holds P cache) : Holds P cache.makeRoom := by
  fun_induction Cache.makeRoom cache with
  | case1 => exact h
  | case2 => exact h
  | case3 cache _ evicted hevict ih =>
    exact ih fun key value hfind => h key value (find?_of_evictOldest? hevict hfind)

/-- Putting a value that satisfies `P` into a table keeps it. -/
theorem Holds.put (h : Holds P cache) (hvalue : P key value) {stored : Cache κ ν}
    (htable : stored.table = cache.table.insert key value) : Holds P stored := by
  intro other found hfind
  rw [find?, htable, Std.HashMap.getElem?_insert] at hfind
  split at hfind
  · rename_i hkey
    cases hfind
    rw [← eq_of_beq hkey]
    exact hvalue
  · exact h other found hfind

/-- Storing a value that satisfies `P` keeps it, whatever has to give way. -/
theorem Holds.insert (h : Holds P cache) (hvalue : P key value) :
    Holds P (cache.insert key value) := by
  unfold Cache.insert
  split
  · exact h.put hvalue rfl
  · exact h.makeRoom.put hvalue rfl

end Scrutiny.Cache
