/-
# Sorting by a key

A comparison that is the order of a key, in a linear order: the sorted list increases in the key, and
a list and its permutations sort to one list where the key tells their elements apart.
-/
import Mathlib

namespace PosseClient.KeySort

variable {α β : Type*} [LinearOrder β] {key : α → β} {le : α → α → Bool}

/-- A sorted list increases in the key. -/
theorem pairwise_mergeSort (hle : ∀ a b, le a b = true ↔ key a ≤ key b) (l : List α) :
    (l.mergeSort le).Pairwise fun a b => key a ≤ key b := by
  have hpair : (l.mergeSort le).Pairwise fun a b => le a b = true := by
    refine List.pairwise_mergeSort (fun a b c hab hbc => ?_) (fun a b => ?_) l
    · rw [hle] at hab hbc ⊢
      exact hab.trans hbc
    · rw [Bool.or_eq_true, hle, hle]
      exact le_total _ _
  exact hpair.imp fun h => (hle _ _).mp h

/-- **The order of the list does not matter** where the key tells its elements apart. -/
theorem mergeSort_eq_of_perm (hle : ∀ a b, le a b = true ↔ key a ≤ key b) {l l' : List α}
    (hkey : ∀ a ∈ l, ∀ b ∈ l, key a = key b → a = b) (hperm : l.Perm l') :
    l.mergeSort le = l'.mergeSort le := by
  have hsorted : (l.mergeSort le).Perm (l'.mergeSort le) :=
    (List.mergeSort_perm _ _).trans (hperm.trans (List.mergeSort_perm _ _).symm)
  refine List.Perm.eq_of_pairwise (fun a b ha hb hab hba => ?_) (pairwise_mergeSort hle l)
    (pairwise_mergeSort hle l') hsorted
  have hmem : a ∈ l := (List.mergeSort_perm _ _).mem_iff.mp ha
  have hmem' : b ∈ l := hperm.mem_iff.mpr ((List.mergeSort_perm _ _).mem_iff.mp hb)
  exact hkey a hmem b hmem' (le_antisymm hab hba)

end PosseClient.KeySort
