/-
Places in a forest.

A forest is some trees, each with further trees directly inside it (`inside`).  A place
in it is a path: which of the trees to enter, then which of those inside that one, and so
on down.  Two parts of a forest that look the same stand at different places, so a place
is what "the same part" means.

A tree in front of all that is inside it is the tree in preorder, and this goes through the
places in lexical order (`preorder_listed`): it has one entry for every place and no
more, and a tree comes before what is below it.

One may refuse to enter some trees.  What still stands somewhere then is what has no such
tree around it (`standing?_pruned`).  And where the order does not matter, a list has just
what is due at some places (`EachOnce`).
-/
import Mathlib.Data.List.Nodup
import Mathlib.Data.Prod.Basic

namespace Scrutiny

/-- A path down a forest: the index of a tree, then of one inside it, and so on. -/
abbrev Place : Type := List Nat

variable {α β : Type}

/-- What stands at a place of a forest. -/
def standing? (inside : α → List α) : List α → Place → Option α
  | _, [] => none
  | trees, [i] => trees[i]?
  | trees, i :: j :: path => trees[i]?.bind fun tree => standing? inside (inside tree) (j :: path)

section

variable {inside : α → List α}

@[simp] theorem standing?_nil (trees : List α) : standing? inside trees [] = none := by
  cases trees <;> rfl

@[simp] theorem standing?_empty (path : Place) : standing? inside ([] : List α) path = none := by
  unfold standing?
  split <;> simp_all

@[simp] theorem standing?_zero (tree : α) (trees : List α) :
    standing? inside (tree :: trees) [0] = some tree := rfl

@[simp] theorem standing?_below (tree : α) (trees : List α) (j : Nat) (path : Place) :
    standing? inside (tree :: trees) (0 :: j :: path)
      = standing? inside (inside tree) (j :: path) :=
  rfl

@[simp] theorem standing?_succ (tree : α) (trees : List α) (i : Nat) (path : Place) :
    standing? inside (tree :: trees) ((i + 1) :: path) = standing? inside trees (i :: path) := by
  cases path <;> simp [standing?]

/-- Looking at a forest through `f` changes no place. -/
theorem standing?_map {f : α → β} {within : β → List β}
    (hinside : ∀ a, within (f a) = (inside a).map f) (trees : List α) (path : Place) :
    standing? within (trees.map f) path = (standing? inside trees path).map f := by
  induction path generalizing trees with
  | nil => simp
  | cons i path ih =>
    cases path with
    | nil => simp [standing?]
    | cons j path =>
      simp only [standing?, List.getElem?_map]
      cases trees[i]? with
      | none => rfl
      | some tree =>
        simp only [Option.map_some, Option.bind_some]
        rw [hinside tree, ih]

/-- What is below a tree stands where it does in the forest inside that tree. -/
theorem standing?_append {trees : List α} {home path : Place} {tree : α}
    (h : standing? inside trees home = some tree) (hpath : path ≠ []) :
    standing? inside trees (home ++ path) = standing? inside (inside tree) path := by
  obtain ⟨j, path, rfl⟩ := List.exists_cons_of_ne_nil hpath
  induction home generalizing trees with
  | nil => simp at h
  | cons i home ih =>
    cases home with
    | nil =>
      rw [standing?] at h
      rw [List.singleton_append, standing?, h, Option.bind_some]
    | cons k home =>
      rw [standing?] at h
      obtain ⟨first, hfirst, h⟩ := Option.bind_eq_some_iff.mp h
      rw [List.cons_append, List.cons_append, standing?, hfirst, Option.bind_some,
        ← List.cons_append, ih h]

end

/-! ### What is around a place -/

/-- The tree at `outer` is around that at `inner`. -/
def Place.Around (outer inner : Place) : Prop :=
  outer ≠ [] ∧ ∃ path, path ≠ [] ∧ outer ++ path = inner

namespace Place

variable {outer inner : Place}

theorem not_around_singleton {i : Nat} : ¬ outer.Around [i] := by
  rintro ⟨houter, path, hpath, heq⟩
  obtain ⟨j, outer, rfl⟩ := List.exists_cons_of_ne_nil houter
  obtain ⟨k, path, rfl⟩ := List.exists_cons_of_ne_nil hpath
  simp at heq

theorem around_cons {i j : Nat} {path : Place} : outer.Around (i :: j :: path) ↔
      outer = [i] ∨ ∃ below : Place, below.Around (j :: path) ∧ outer = i :: below := by
  constructor
  · rintro ⟨houter, rest, hrest, heq⟩
    obtain ⟨k, below, rfl⟩ := List.exists_cons_of_ne_nil houter
    obtain ⟨rfl, htail⟩ := List.cons.inj heq
    by_cases hbelow : below = []
    · exact .inl (by rw [hbelow])
    · exact .inr ⟨below, ⟨hbelow, rest, hrest, htail⟩, rfl⟩
  · rintro (rfl | ⟨below, ⟨-, rest, hrest, heq⟩, rfl⟩)
    · exact ⟨by simp, j :: path, by simp, rfl⟩
    · exact ⟨by simp, rest, hrest, by rw [List.cons_append, heq]⟩

end Place

/-- What is inside a tree, if it may be entered. -/
def pruned (inside : α → List α) (closed : α → Bool) (tree : α) : List α :=
  if closed tree then [] else inside tree

/-- **Without entering some trees one comes to all that have none of them around.** -/
theorem standing?_pruned {inside : α → List α} {closed : α → Bool} {trees : List α} {place : Place}
    {tree : α} : standing? (pruned inside closed) trees place = some tree ↔
      standing? inside trees place = some tree ∧
        ∀ outer : Place, outer.Around place → ∀ other, standing? inside trees outer = some other →
          closed other = false := by
  induction place generalizing trees with
  | nil => simp
  | cons i place ih =>
    cases place with
    | nil =>
      have hnone (outer : Place) : ¬ outer.Around [i] := Place.not_around_singleton
      simp [standing?, hnone]
    | cons j path =>
      cases hfirst : trees[i]? with
      | none => simp [standing?, hfirst]
      | some first =>
        have hi : standing? inside trees [i] = some first := hfirst
        have hbelow (below : Place) (hne : below ≠ []) :
            standing? inside trees (i :: below) = standing? inside (inside first) below :=
          standing?_append hi hne
        rw [hbelow _ (by simp), standing?, hfirst, Option.bind_some]
        by_cases hclosed : closed first = true
        · rw [pruned, if_pos hclosed, standing?_empty]
          refine ⟨nofun, fun h => ?_⟩
          have hopen := h.2 [i] (Place.around_cons.mpr (.inl rfl)) first hi
          rw [hclosed] at hopen
          cases hopen
        · rw [pruned, if_neg hclosed, ih]
          refine and_congr_right fun _ => ⟨fun h outer houter other hother => ?_,
            fun h below haround other hother => ?_⟩
          · rcases Place.around_cons.mp houter with rfl | ⟨below, haround, rfl⟩
            · obtain rfl : first = other := by simpa [hi] using hother
              simpa using hclosed
            · exact h below haround other (hbelow below haround.1 ▸ hother)
          · exact h (i :: below) (Place.around_cons.mpr (.inr ⟨below, haround, rfl⟩)) other
              ((hbelow below haround.1).trans hother)

/-! ### Listings -/

/-- A listing goes, in order, through all places where there is something to see. -/
structure Listed (look : Place → Option α) (places : List Place) (listing : List α) : Prop where
  /-- No place comes twice, and none before one that it is below. -/
  ascending : places.Pairwise (· < ·)
  complete : ∀ place, place ∈ places ↔ (look place).isSome = true
  entries : places.map look = listing.map some

/-- Of a listing one may keep what `f` picks. -/
theorem Listed.filterMap {look : Place → Option α} {places : List Place} {listing : List α}
    (h : Listed look places listing) (f : α → Option β) :
    ∃ kept, Listed (fun place => (look place).bind f) kept (listing.filterMap f) := by
  refine ⟨places.filter fun place => ((look place).bind f).isSome, h.ascending.filter _, ?_, ?_⟩
  · intro place
    rw [List.mem_filter, h.complete]
    cases look place <;> simp
  · -- Along the listing, a place is kept where its entry is.
    have hentries := h.entries
    clear h
    induction places generalizing listing with
    | nil =>
      cases listing with
      | nil => rfl
      | cons a listing => simp at hentries
    | cons place places ih =>
      cases listing with
      | nil => simp at hentries
      | cons a listing =>
        obtain ⟨hplace, hentries⟩ := List.cons.inj hentries
        cases hf : f a with
        | none => simp [hplace, hf, ih hentries]
        | some b => simp [hplace, hf, ih hentries]

/-- A list has, once for each place, what is due there, and nothing else. -/
def EachOnce (due : Place → α → Prop) (listing : List α) : Prop :=
  ∃ entries : List (Place × α), (entries.map Prod.fst).Nodup ∧ entries.map Prod.snd = listing ∧
    ∀ place a, (place, a) ∈ entries ↔ due place a

theorem Listed.eachOnce {look : Place → Option α} {places : List Place} {listing : List α}
    (h : Listed look places listing) : EachOnce (fun place a => look place = some a) listing := by
  have hlength : places.length = listing.length := by
    simpa using congrArg List.length h.entries
  refine ⟨places.zip listing, ?_, ?_, fun place a => ?_⟩
  · rw [List.map_fst_zip (Nat.le_of_eq hlength)]
    refine h.ascending.imp ?_
    rintro place _ hlt rfl
    exact List.lt_irrefl place hlt
  · exact List.map_snd_zip (Nat.le_of_eq hlength.symm)
  · have hlook (i : Nat) (hi : i < places.length) (hi' : i < listing.length) :
        look places[i] = some listing[i] := by
      have hentry := congrArg (·[i]?) h.entries
      simpa [hi, hi'] using hentry
    constructor
    · intro hmem
      obtain ⟨i, hi, heq⟩ := List.mem_iff_getElem.mp hmem
      rw [List.length_zip, Nat.lt_min] at hi
      rw [List.getElem_zip, Prod.mk.injEq] at heq
      rw [← heq.1, ← heq.2]
      exact hlook i hi.1 hi.2
    · intro hdue
      obtain ⟨i, hi, rfl⟩ := List.mem_iff_getElem.mp ((h.complete place).mpr (by simp [hdue]))
      rw [hlook i hi (hlength ▸ hi), Option.some.injEq] at hdue
      refine List.mem_iff_getElem.mpr ⟨i, by simpa [← hlength] using hi, ?_⟩
      rw [List.getElem_zip, hdue]

namespace EachOnce

variable {due : Place → α → Prop} {listing : List α}

theorem congr {due' : Place → α → Prop} (h : EachOnce due listing)
    (hdue : ∀ place a, due place a ↔ due' place a) : EachOnce due' listing := by
  obtain ⟨entries, hnodup, hlisting, hmem⟩ := h
  exact ⟨entries, hnodup, hlisting, fun place a => (hmem place a).trans (hdue place a)⟩

theorem map (h : EachOnce due listing) (f : α → β) :
    EachOnce (fun place b => ∃ a, due place a ∧ f a = b) (listing.map f) := by
  obtain ⟨entries, hnodup, rfl, hmem⟩ := h
  refine ⟨entries.map (Prod.map id f), ?_, ?_, fun place b => ?_⟩
  · rw [List.map_map, Prod.map_fst', Function.id_comp]
    exact hnodup
  · simp [Function.comp_def]
  · simp only [List.mem_map, Prod.exists, Prod.map_apply, id_eq, Prod.mk.injEq, hmem]
    constructor
    · rintro ⟨_, a, hdue, rfl, rfl⟩
      exact ⟨a, hdue, rfl⟩
    · rintro ⟨a, hdue, rfl⟩
      exact ⟨place, a, hdue, rfl, rfl⟩

/-- From each entry one may go on to what is due below it, if no two ways lead to one place. -/
theorem flatMap {within : α → Place → β → Prop} {below : α → List β} (h : EachOnce due listing)
    (hbelow : ∀ a, EachOnce (within a) (below a))
    (hapart : ∀ home a path b home' a' path' b', due home a → within a path b → due home' a' →
      within a' path' b' → home ++ path = home' ++ path' → home = home') :
    EachOnce (fun place b => ∃ home a path, due home a ∧ within a path b ∧ home ++ path = place)
      (listing.flatMap below) := by
  obtain ⟨entries, hnodup, rfl, hmem⟩ := h
  choose inner hinner hlisting hwithin using hbelow
  refine ⟨entries.flatMap fun (home, a) => (inner a).map (Prod.map (home ++ ·) id), ?_, ?_,
    fun place b => ?_⟩
  · rw [List.map_flatMap, List.nodup_flatMap]
    refine ⟨fun (home, a) _ => ?_, ?_⟩
    · rw [List.map_map, Prod.map_fst', ← List.map_map]
      exact (hinner a).map fun _ _ heq => List.append_cancel_left heq
    · refine ((List.pairwise_map.mp hnodup)).imp_of_mem fun {x y} hx hy hne => ?_
      obtain ⟨home, a⟩ := x
      obtain ⟨home', a'⟩ := y
      intro place hplace hplace'
      simp only [List.map_map, List.mem_map, Function.comp_apply, Prod.exists, Prod.map_apply]
        at hplace hplace'
      obtain ⟨path, b, hb, rfl⟩ := hplace
      obtain ⟨path', b', hb', heq⟩ := hplace'
      exact hne (hapart home a path b home' a' path' b' ((hmem ..).mp hx) ((hwithin ..).mp hb)
        ((hmem ..).mp hy) ((hwithin ..).mp hb') heq.symm)
  · rw [List.map_flatMap, List.flatMap_map]
    refine List.flatMap_congr fun (home, a) _ => ?_
    rw [List.map_map, Prod.map_snd', Function.id_comp, hlisting]
  · simp only [List.mem_flatMap, List.mem_map, Prod.exists, Prod.map_apply, Prod.mk.injEq, id_eq,
      hmem, hwithin]
    constructor
    · rintro ⟨home, a, hdue, path, _, hpath, rfl, rfl⟩
      exact ⟨home, a, path, hdue, hpath, rfl⟩
    · rintro ⟨home, a, path, hdue, hpath, rfl⟩
      exact ⟨home, a, hdue, path, b, hpath, rfl, rfl⟩

end EachOnce

/-- The place of a tree one further on. -/
def Place.next : Place → Place
  | [] => []
  | i :: path => (i + 1) :: path

namespace Listed

variable {inside : α → List α} {trees : List α} {places : List Place} {listing : List α}

theorem ne_nil (h : Listed (standing? inside trees) places listing) {place : Place}
    (hplace : place ∈ places) : place ≠ [] := by
  rintro rfl
  have hsome := (h.complete []).mp hplace
  simp at hsome

theorem empty : Listed (standing? inside []) [] [] :=
  ⟨.nil, fun place => by simp, rfl⟩

/-- One more tree in front, listed before what is inside it and what comes after. -/
theorem cons {tree : α} {inner : List Place} {below : List α}
    (hbelow : Listed (standing? inside (inside tree)) inner below)
    (h : Listed (standing? inside trees) places listing) : Listed (standing? inside (tree :: trees))
      ([0] :: (inner.map (0 :: ·) ++ places.map Place.next)) (tree :: (below ++ listing)) := by
  refine ⟨?_, ?_, ?_⟩
  · refine List.pairwise_cons.mpr ⟨?_, List.pairwise_append.mpr ⟨?_, ?_, ?_⟩⟩
    · intro place hplace
      rcases List.mem_append.mp hplace with hplace | hplace
      · obtain ⟨path, hpath, rfl⟩ := List.mem_map.mp hplace
        obtain ⟨j, path, rfl⟩ := List.exists_cons_of_ne_nil (hbelow.ne_nil hpath)
        simp
      · obtain ⟨path, hpath, rfl⟩ := List.mem_map.mp hplace
        obtain ⟨i, path, rfl⟩ := List.exists_cons_of_ne_nil (h.ne_nil hpath)
        simp [Place.next, List.cons_lt_cons_iff]
    · rw [List.pairwise_map]
      exact hbelow.ascending.imp fun hlt => List.cons_lt_cons_iff.mpr (.inr ⟨rfl, hlt⟩)
    · rw [List.pairwise_map]
      refine h.ascending.imp_of_mem fun {a b} ha hb hlt => ?_
      obtain ⟨i, a, rfl⟩ := List.exists_cons_of_ne_nil (h.ne_nil ha)
      obtain ⟨j, b, rfl⟩ := List.exists_cons_of_ne_nil (h.ne_nil hb)
      simpa only [Place.next, List.cons_lt_cons_iff, Nat.add_lt_add_iff_right,
        Nat.add_right_cancel_iff] using hlt
    · intro a ha b hb
      obtain ⟨path, -, rfl⟩ := List.mem_map.mp ha
      obtain ⟨later, hlater, rfl⟩ := List.mem_map.mp hb
      obtain ⟨i, later, rfl⟩ := List.exists_cons_of_ne_nil (h.ne_nil hlater)
      simp [Place.next, List.cons_lt_cons_iff]
  · intro place
    simp only [List.mem_cons, List.mem_append, List.mem_map]
    match place with
    | [] =>
      have hnext (path : Place) (hpath : path ∈ places) : path.next ≠ [] := by
        obtain ⟨i, path, rfl⟩ := List.exists_cons_of_ne_nil (h.ne_nil hpath)
        simp [Place.next]
      simpa using hnext
    | [0] => simp
    | 0 :: j :: path =>
      have hnext (later : Place) (hlater : later ∈ places) : later.next ≠ 0 :: j :: path := by
        obtain ⟨i, later, rfl⟩ := List.exists_cons_of_ne_nil (h.ne_nil hlater)
        simp [Place.next]
      rw [standing?_below, ← hbelow.complete]
      simpa using fun later hlater heq => absurd heq (hnext later hlater)
    | (i + 1) :: path =>
      rw [standing?_succ, ← h.complete]
      constructor
      · rintro (heq | ⟨_, _, heq⟩ | ⟨later, hlater, heq⟩)
        · simp at heq
        · simp at heq
        · obtain ⟨j, later, rfl⟩ := List.exists_cons_of_ne_nil (h.ne_nil hlater)
          simp only [Place.next, List.cons.injEq, Nat.add_right_cancel_iff] at heq
          rwa [← heq.1, ← heq.2]
      · intro hmem
        exact .inr (.inr ⟨i :: path, hmem, rfl⟩)
  · have hinner : (inner.map (0 :: ·)).map (standing? inside (tree :: trees))
        = inner.map (standing? inside (inside tree)) := by
      rw [List.map_map]
      refine List.map_congr_left fun path hpath => ?_
      obtain ⟨j, path, rfl⟩ := List.exists_cons_of_ne_nil (hbelow.ne_nil hpath)
      rfl
    have hnext : (places.map Place.next).map (standing? inside (tree :: trees))
        = places.map (standing? inside trees) := by
      rw [List.map_map]
      refine List.map_congr_left fun path hpath => ?_
      obtain ⟨i, path, rfl⟩ := List.exists_cons_of_ne_nil (h.ne_nil hpath)
      simp [Place.next]
    rw [List.map_cons, List.map_append, hinner, hnext, hbelow.entries, h.entries]
    simp

end Listed

/-! ### Preorder -/

section

variable {inside : α → List α} {size : α → Nat}

/-- A tree in front of all that is inside it.  Trees get smaller on the way down. -/
def preorder (hsize : ∀ tree, ∀ inner ∈ inside tree, size inner < size tree) (tree : α) : List α :=
  tree :: (inside tree).attach.flatMap fun inner => preorder hsize inner.1
termination_by size tree
decreasing_by exact hsize tree inner.1 inner.2

variable (hsize : ∀ tree, ∀ inner ∈ inside tree, size inner < size tree)

theorem preorder_eq (tree : α) :
    preorder hsize tree = tree :: (inside tree).flatMap (preorder hsize) := by
  rw [preorder, List.flatMap_subtype (fun _ _ => rfl), List.unattach_attach]

/-- **A forest in preorder has one entry for every place**, in lexical order. -/
theorem preorder_listed (trees : List α) :
    ∃ places, Listed (standing? inside trees) places (trees.flatMap (preorder hsize)) := by
  have hforest (trees : List α) (htrees : ∀ tree ∈ trees, ∃ inner,
      Listed (standing? inside (inside tree)) inner ((inside tree).flatMap (preorder hsize))) :
      ∃ places, Listed (standing? inside trees) places (trees.flatMap (preorder hsize)) := by
    induction trees with
    | nil => exact ⟨[], .empty⟩
    | cons tree trees ih =>
      obtain ⟨inner, hinner⟩ := htrees tree (by simp)
      obtain ⟨places, hplaces⟩ := ih fun later hlater => htrees later (by simp [hlater])
      have hcons : (tree :: trees).flatMap (preorder hsize)
          = tree :: ((inside tree).flatMap (preorder hsize) ++ trees.flatMap (preorder hsize)) := by
        rw [List.flatMap_cons, preorder_eq, List.cons_append]
      exact ⟨_, hcons ▸ hinner.cons hplaces⟩
  have hinside (bound : Nat) : ∀ tree, size tree = bound → ∃ inner,
      Listed (standing? inside (inside tree)) inner ((inside tree).flatMap (preorder hsize)) := by
    induction bound using Nat.strongRecOn with
    | ind bound ih =>
      intro tree htree
      refine hforest _ fun below hbelow => ?_
      exact ih (size below) (htree ▸ hsize tree below hbelow) below rfl
  exact hforest trees fun tree _ => hinside _ tree rfl

end

end Scrutiny
