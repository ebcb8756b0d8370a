import Rustchain.Consensus.FinalitySafety
import Rustchain.Lib.Quorums
import Rustchain.Lib.Ranking

/-! # Quorums of a validator set

`quorum_threshold` is two thirds of the active stake, rounded up. Two quorums have a third of the
stake in common (`quorums_intersect`), so where two blocks of one height have a quorum each, a third
of the stake has voted for both (`third_voted_twice`). -/

namespace Rustchain.Consensus

open Rustchain.Core Lib.Machine Lib.Quorums Lib.Ranking

/-- The stakes of the active validators together. -/
def activeStake (vs : ValidatorSet) : ℕ := (vs.activeValidators.map (·.stake)).sum

section
variable {vs : ValidatorSet}

theorem quorumThreshold_eq (h : 2 * activeStake vs < 2 ^ 128) :
    vs.quorumThreshold = ⟨(2 * activeStake vs + 2) / 3, false⟩ := by
  have hsum : vs.totalActiveStake = ⟨activeStake vs, false⟩ := by
    have hovf : vs.totalActiveStake.ovf = false := sumU_ovf.mpr (show activeStake vs < _ by omega)
    exact Flagged.ext (sumU_val hovf) hovf
  have htwice : mulU 128 (activeStake vs) 2 = ⟨2 * activeStake vs, false⟩ := by
    have hovf : (mulU 128 (activeStake vs) 2).ovf = false := mulU_ovf.mpr (by omega)
    exact Flagged.ext ((mulU_val hovf).trans (Nat.mul_comm _ _)) hovf
  unfold ValidatorSet.quorumThreshold
  rw [hsum]
  refine Flagged.ext ?_ ?_
  · rw [val_bind, val_bind, htwice]
    rfl
  · rw [ovf_bind, ovf_bind, htwice]
    rfl

variable (hd : (vs.validators.map (·.address)).Nodup)
include hd

theorem nodup_active : (vs.activeValidators.map (·.address)).Nodup :=
  hd.sublist (List.filter_sublist.map _)

theorem sum_active : ∑ v ∈ vs.activeValidators.toFinset, v.stake = activeStake vs :=
  List.sum_toFinset _ (nodup_active hd).of_map

theorem sum_active_addresses :
    ∑ a ∈ (vs.activeValidators.map (·.address)).toFinset, stakeOf vs a = activeStake vs := by
  rw [List.sum_toFinset _ (nodup_active hd), List.map_map]
  refine congrArg List.sum (List.map_congr_left fun v hv => ?_)
  have hfind : vs.getValidator v.address = some v :=
    (find?_eq_some_of_nodup hd).mpr ⟨List.mem_of_mem_filter hv, rfl⟩
  rw [Function.comp_apply, stakeOf, hfind]
  rfl

end

/-- **Quorums intersect.** Any two sets of active validators that reach the threshold have members
in common with a third of the active stake, and the active validators reach the threshold. -/
theorem quorums_intersect (vs : ValidatorSet) (hd : (vs.validators.map (·.address)).Nodup)
    (hlt : 2 * activeStake vs < 2 ^ 128) :
    (∀ A B : Finset ValidatorInfo, (∀ v ∈ A, v ∈ vs.activeValidators) →
      (∀ v ∈ B, v ∈ vs.activeValidators) →
      vs.quorumThreshold.val ≤ ∑ v ∈ A, v.stake → vs.quorumThreshold.val ≤ ∑ v ∈ B, v.stake →
      activeStake vs ≤ 3 * ∑ v ∈ A ∩ B, v.stake) ∧
    vs.quorumThreshold.ovf = false ∧ vs.quorumThreshold.val ≤ activeStake vs ∧
    vs.quorumThreshold.val ≤ ∑ v ∈ vs.activeValidators.toFinset, v.stake := by
  have hle : (2 * activeStake vs + 2) / 3 ≤ activeStake vs := by omega
  rw [sum_active hd, quorumThreshold_eq hlt]
  refine ⟨fun A B hA hB hqA hqB => ?_, rfl, hle, hle⟩
  have hquorum : ∀ C : Finset ValidatorInfo, (∀ v ∈ C, v ∈ vs.activeValidators) →
      (2 * activeStake vs + 2) / 3 ≤ ∑ v ∈ C, v.stake →
      Quorum (·.stake) ((2 * activeStake vs + 2) / 3) vs.activeValidators.toFinset C :=
    fun C hC hq => ⟨fun v hv => List.mem_toFinset.mpr (hC v hv), hq⟩
  have hmeet := (hquorum A hA hqA).inter (hquorum B hB hqB)
  rw [sum_active hd] at hmeet
  omega

/-- Two of three validators with one stake, and another two, have one in common. -/
theorem quorums_of_two_meet :
    activeStake threeValidators ≤
      3 * ∑ v ∈ (threeValidators.validators.take 2).toFinset ∩
        (threeValidators.validators.drop 1).toFinset, v.stake := by
  obtain ⟨hmeet, -⟩ := quorums_intersect threeValidators (by decide +kernel) (by decide +kernel)
  exact hmeet _ _ (by decide +kernel) (by decide +kernel) (by decide +kernel) (by decide +kernel)

/-- The addresses `A` are of active validators that have voted for a block, and they reach the
threshold. -/
structure VotedFor (vs : ValidatorSet) (accepted : List FinalityVote) (height : ℕ)
    (block : Blake3Hash) (A : Finset Address) : Prop where
  active : ∀ a ∈ A, ActiveIn vs a
  voted : ∀ a ∈ A,
    ∃ v ∈ accepted, v.blockNumber = height ∧ v.blockHash = block ∧ v.validator = a
  reaches : vs.quorumThreshold.val ≤ ∑ a ∈ A, stakeOf vs a

/-- **Who finalizes two blocks is known**: where two blocks of one height have a quorum each, a
third of the active stake belongs to validators with accepted votes for both. -/
theorem third_voted_twice {vs : ValidatorSet} {accepted : List FinalityVote} {height : ℕ}
    {b b' : Blake3Hash} {A A' : Finset Address} (hd : (vs.validators.map (·.address)).Nodup)
    (hlt : 2 * activeStake vs < 2 ^ 128) (h : VotedFor vs accepted height b A)
    (h' : VotedFor vs accepted height b' A') :
    activeStake vs ≤ 3 * ∑ a ∈ A ∩ A', stakeOf vs a ∧ ∀ a ∈ A ∩ A', ∃ v ∈ accepted, ∃ v' ∈ accepted,
      v.validator = a ∧ v'.validator = a ∧ v.blockNumber = height ∧ v'.blockNumber = height ∧
        v.blockHash = b ∧ v'.blockHash = b' := by
  have hsub : ∀ {C : Finset Address}, (∀ a ∈ C, ActiveIn vs a) →
      C ⊆ (vs.activeValidators.map (·.address)).toFinset := by
    intro C hC a ha
    obtain ⟨v, hv, hactive⟩ := hC a ha
    have haddr : v.address = a := ((find?_eq_some_of_nodup hd).mp hv).2
    exact List.mem_toFinset.mpr (List.mem_map.mpr ⟨v, hactive, haddr⟩)
  constructor
  · have hmeet := Quorum.inter ⟨hsub h.active, h.reaches⟩ ⟨hsub h'.active, h'.reaches⟩
    rw [sum_active_addresses hd, quorumThreshold_eq hlt] at hmeet
    dsimp only at hmeet
    omega
  · intro a ha
    obtain ⟨hA, hA'⟩ := Finset.mem_inter.mp ha
    obtain ⟨v, hv, hn, hb, hva⟩ := h.voted a hA
    obtain ⟨v', hv', hn', hb', hva'⟩ := h'.voted a hA'
    exact ⟨v, hv, v', hv', hva, hva', hn, hn', hb, hb'⟩

/-- The address of a key pair. -/
def keyAddress (b : UInt8) : Address := (KeyPair.small b).address .small

/-- Two of the three validators vote for the zero hash and two for another one, and the second of
them, with a third of the stake, for both. -/
theorem second_voted_twice : activeStake threeValidators ≤
    3 * ∑ a ∈ {keyAddress 1, keyAddress 2} ∩ {keyAddress 2, keyAddress 3},
      stakeOf threeValidators a := by
  set other := Primitives.small.blake3 [1]
  set votes := [smallVote 1, smallVote 2] ++
    [2, 3].map fun b => FinalityVote.new .small 1 other (KeyPair.small b) 0
  have h : VotedFor threeValidators votes 1 .zero {keyAddress 1, keyAddress 2} := by
    refine ⟨?_, ?_, by decide +kernel⟩ <;>
      simp only [Finset.mem_insert, Finset.mem_singleton, forall_eq_or_imp, forall_eq] <;>
      decide +kernel
  have h' : VotedFor threeValidators votes 1 other {keyAddress 2, keyAddress 3} := by
    refine ⟨?_, ?_, by decide +kernel⟩ <;>
      simp only [Finset.mem_insert, Finset.mem_singleton, forall_eq_or_imp, forall_eq] <;>
      decide +kernel
  exact (third_voted_twice (by decide +kernel) (by decide +kernel) h h').1

end Rustchain.Consensus
