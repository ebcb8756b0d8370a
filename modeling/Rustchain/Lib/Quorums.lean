import Mathlib.Algebra.BigOperators.Group.Finset.Basic
import Mathlib.Algebra.Order.BigOperators.Group.Finset
import Mathlib.Algebra.Order.Ring.Nat

/-! # Weighted quorums

A part of a finite set is a quorum if its weight reaches a threshold. What two quorums have in
common weighs at least twice the threshold without the weight of the set. -/

namespace Rustchain.Lib.Quorums

variable {ι : Type*} [DecidableEq ι]

/-- A part of `S` that weighs at least `q`. -/
structure Quorum (weight : ι → ℕ) (q : ℕ) (S A : Finset ι) : Prop where
  subset : A ⊆ S
  reaches : q ≤ ∑ i ∈ A, weight i

variable {weight : ι → ℕ} {q : ℕ} {S A B : Finset ι}

/-- **Two quorums meet.** -/
theorem Quorum.inter (hA : Quorum weight q S A) (hB : Quorum weight q S B) :
    2 * q ≤ ∑ i ∈ A ∩ B, weight i + ∑ i ∈ S, weight i := by
  have hparts : ∑ i ∈ A ∪ B, weight i + ∑ i ∈ A ∩ B, weight i =
      ∑ i ∈ A, weight i + ∑ i ∈ B, weight i := Finset.sum_union_inter
  have hunion : ∑ i ∈ A ∪ B, weight i ≤ ∑ i ∈ S, weight i :=
    Finset.sum_le_sum_of_subset (Finset.union_subset hA.subset hB.subset)
  have := hA.reaches
  have := hB.reaches
  omega

end Rustchain.Lib.Quorums
