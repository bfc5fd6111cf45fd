import Mathlib.Data.List.Perm.Basic
import MessageArgs.Typed

/-!
# Maps from pairs

A map is read pair by pair, and its pairs may come in any order. Putting in a pair with a new key
keeps the pairs in order and loses none (`rising_insertPair`, `insertPair_perm`), so pairs with
different keys always make the one map that has them in order (`mapOfPairs_of_perm`). So it does not
matter in which order the pairs of a map are listed and read (`forall₂_mapOfPairs`).
-/

namespace MessageArgs.Model

variable {key value : Model}

/-- Pairs in the strict order of their keys. -/
def Rising (pairs : List (key.Carrier × value.Carrier)) : Prop :=
  pairs.Pairwise fun a b => key.compareKeys a.1 b.1 = .lt

/-- The order of pairs is that of their keys. -/
theorem rising_iff {pairs : List (key.Carrier × value.Carrier)} :
    Rising pairs ↔ (pairs.map Prod.fst).Pairwise fun a b => key.compareKeys a b = .lt := by
  rw [List.pairwise_map, Rising]

/-- A key that is none of those of some pairs. -/
def Fresh (name : key.Carrier) (pairs : List (key.Carrier × value.Carrier)) : Prop :=
  ∀ old ∈ pairs, key.compareKeys name old.1 ≠ .eq

variable {pair : key.Carrier × value.Carrier} {pairs : List (key.Carrier × value.Carrier)}

theorem Rising.distinct (rising : Rising pairs) :
    pairs.Pairwise fun a b => key.compareKeys a.1 b.1 ≠ .eq := by
  refine rising.imp fun less equal => ?_
  rw [less] at equal
  cases equal

theorem insertPair_perm (fresh : Fresh pair.1 pairs) :
    (insertPair key value pair pairs).Perm (pair :: pairs) := by
  induction pairs with
  | nil => exact .refl _
  | cons old rest ih =>
    rw [Fresh, List.forall_mem_cons] at fresh
    rw [insertPair]
    split
    · exact .refl _
    · rename_i equal
      exact absurd equal fresh.1
    · exact ((ih fresh.2).cons old).trans (.swap pair old rest)

variable [Std.TransCmp key.compareKeys]

theorem rising_insertPair (rising : Rising pairs) (fresh : Fresh pair.1 pairs) :
    Rising (insertPair key value pair pairs) := by
  induction pairs with
  | nil => exact List.pairwise_singleton _ _
  | cons old rest ih =>
    rw [Fresh, List.forall_mem_cons] at fresh
    obtain ⟨above, others⟩ := List.pairwise_cons.1 rising
    rw [insertPair]
    split
    · rename_i less
      refine List.pairwise_cons.2 ⟨?_, rising⟩
      rw [List.forall_mem_cons]
      exact ⟨less, fun next member => Std.TransCmp.lt_trans less (above next member)⟩
    · rename_i equal
      exact absurd equal fresh.1
    · rename_i greater
      refine List.pairwise_cons.2 ⟨fun next member => ?_, ih others fresh.2⟩
      rcases List.mem_cons.1 ((insertPair_perm fresh.2).mem_iff.1 member) with rfl | inside
      · exact Std.OrientedCmp.lt_of_gt greater
      · exact above next inside

/-- Pairs with different keys are put into a map that has none of them yet. -/
theorem foldl_insertPair {map : List (key.Carrier × value.Carrier)} (rising : Rising map)
    (fresh : ∀ pair ∈ pairs, Fresh pair.1 map)
    (distinct : pairs.Pairwise fun a b => key.compareKeys a.1 b.1 ≠ .eq) :
    Rising (pairs.foldl (fun map pair => insertPair key value pair map) map) ∧
      (pairs.foldl (fun map pair => insertPair key value pair map) map).Perm (pairs ++ map) := by
  induction pairs generalizing map with
  | nil => exact ⟨rising, .refl _⟩
  | cons pair pairs ih =>
    rw [List.forall_mem_cons] at fresh
    obtain ⟨different, others⟩ := List.pairwise_cons.1 distinct
    have grown := insertPair_perm fresh.1
    have fresh' : ∀ next ∈ pairs, Fresh next.1 (insertPair key value pair map) := by
      intro next member old inside
      rcases List.mem_cons.1 (grown.mem_iff.1 inside) with rfl | inside
      · exact fun equal => different next member (Std.OrientedCmp.eq_symm equal)
      · exact fresh.2 next member old inside
    obtain ⟨result, all⟩ := ih (rising_insertPair rising fresh.1) fresh' others
    exact ⟨result, all.trans ((grown.append_left pairs).trans List.perm_middle)⟩

/-- The pairs of a map make that map in every order. -/
theorem mapOfPairs_of_perm {map : List (key.Carrier × value.Carrier)} (rising : Rising map)
    (same : pairs.Perm map) : mapOfPairs key value pairs = map := by
  have distinct : pairs.Pairwise fun a b => key.compareKeys a.1 b.1 ≠ .eq := by
    refine (same.pairwise_iff ?_).2 rising.distinct
    exact fun different equal => different (Std.OrientedCmp.eq_symm equal)
  have start : Rising ([] : List (key.Carrier × value.Carrier)) := .nil
  obtain ⟨rising', all⟩ := foldl_insertPair start (fun _ _ _ => nofun) distinct
  rw [List.append_nil] at all
  refine List.Perm.eq_of_pairwise ?_ rising' rising (all.trans same)
  intro a b _ _ less greater
  rw [Std.OrientedCmp.gt_of_lt greater] at less
  cases less

/-- Pairs that are related to those of a map, in any order but with the same keys, make a map that
is related pair by pair. -/
theorem forall₂_mapOfPairs {R : key.Carrier × value.Carrier → key.Carrier × value.Carrier → Prop}
    {map arranged results : List (key.Carrier × value.Carrier)} (rising : Rising map)
    (order : arranged.Perm map) (related : List.Forall₂ R arranged results)
    (keys : ∀ a b, R a b → a.1 = b.1) : List.Forall₂ R map (mapOfPairs key value results) := by
  obtain ⟨map', related', reordered⟩ := List.perm_comp_forall₂ order.symm related
  have firsts : map.map Prod.fst = map'.map Prod.fst := by
    rw [← List.forall₂_eq_eq_eq, List.forall₂_map_left_iff, List.forall₂_map_right_iff]
    exact related'.imp keys
  have rising' : Rising map' := by
    rw [rising_iff, ← firsts]
    exact rising_iff.1 rising
  rwa [mapOfPairs_of_perm rising' reordered.symm]

end MessageArgs.Model
