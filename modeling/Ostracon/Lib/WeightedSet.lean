import Mathlib
/-!
# Weights of sets of indices

The weight of the indices of `Fin n` that a Boolean predicate selects, for a
weight function `w`: how much voting weight a set of voters holds.  The lemmas
are the ones a tally that adds one index at a time needs: adding an index adds
its weight, selecting more indices weighs more, and two disjoint selections
weigh at most the whole.
-/

namespace WeightedSet

open Finset

variable {n : Nat} (w : Fin n → Int)

/-- The total weight of the indices `p` selects. -/
def weight (p : Fin n → Bool) : Int := ∑ i ∈ univ.filter (fun i => p i = true), w i

theorem weight_congr {p q : Fin n → Bool} (h : ∀ i, p i = q i) : weight w p = weight w q := by
  rw [show p = q from funext h]

@[simp] theorem weight_false : weight w (fun _ => false) = 0 := by
  simp [weight]

theorem weight_insert {p q : Fin n → Bool} (i : Fin n) (hi : p i = false)
    (hq : ∀ j, q j = (j = i || p j)) : weight w q = weight w p + w i := by
  have hfilter : univ.filter (fun j => q j = true) = insert i (univ.filter fun j => p j = true) := by
    ext j
    simp only [mem_filter, mem_univ, true_and, mem_insert, hq j, Bool.or_eq_true, decide_eq_true_eq]
  rw [weight, weight, hfilter, sum_insert (by simp [hi]), Int.add_comm]

theorem exists_of_weight_ne_zero {p : Fin n → Bool} (h : weight w p ≠ 0) : ∃ i, p i = true := by
  by_contra hnone
  have hfalse : ∀ i, p i = false := fun i => by
    cases hp : p i
    · rfl
    · exact absurd ⟨i, hp⟩ hnone
  exact h ((weight_congr w hfalse).trans (weight_false w))

section Nonneg

variable {w} (hw : ∀ i, 0 ≤ w i)
include hw

theorem weight_nonneg (p : Fin n → Bool) : 0 ≤ weight w p :=
  sum_nonneg fun i _ => hw i

theorem weight_mono {p q : Fin n → Bool} (h : ∀ i, p i = true → q i = true) :
    weight w p ≤ weight w q := by
  apply sum_le_sum_of_subset_of_nonneg
  · intro i
    simpa using h i
  · exact fun i _ _ => hw i

theorem weight_le_total (p : Fin n → Bool) : weight w p ≤ ∑ i, w i :=
  sum_le_univ_sum_of_nonneg hw

theorem weight_add_le_total {p q : Fin n → Bool} (h : ∀ i, p i = true → q i = false) :
    weight w p + weight w q ≤ ∑ i, w i := by
  rw [weight, weight, ← sum_union]
  · exact sum_le_univ_sum_of_nonneg hw
  · rw [disjoint_filter]
    intro i _ hp hq
    simp [h i hp] at hq

end Nonneg

end WeightedSet
