import Rustchain.Consensus.Restart

/-! # The schedule of epochs

A node is always inside of an epoch that contains the next block: epoch `k` is the blocks from
`k * epoch_length` to `(k + 1) * epoch_length - 1`. This needs epochs of two blocks at least, which
`GenesisConfig::validate` does not ask for. An epoch of one block ends with the genesis block, and
the test for the last block is made only after a later block: the chain stays in epoch 0. With the
length zero the first epoch ends at `0 - 1`. -/

namespace Rustchain.Consensus

open Rustchain.Core Storage Vm Lib.Machine Lib.Maps Lib.Runs

variable {P : Primitives} {W : Wasmtime} {cfg : VmConfig} {g : GenesisConfig}

/-- The epoch arithmetic around a state stays in range: that of the first start, that of a reload at
the height of the state, and that of the transition after any block that the state accepts. -/
structure EpochArithmetic (P : Primitives) (W : Wasmtime) (cfg : VmConfig) (g : GenesisConfig)
    (s : ChainState Database) : Prop where
  first : (subU 64 (epochLength g) 1).ovf = false
  reload : reloadedEpoch g s.height ≠ none
  transition : ∀ ord cache block t now, ChainStep P W cfg g s (.applyBlock ord cache block) t →
    (maybeAdvanceEpoch g.consensusParams now t).ovf = false

/-- **The schedule**: the current epoch contains the next block, has the length of an epoch and the
number that belongs to the next block. -/
structure Scheduled (g : GenesisConfig) (s : ChainState Database) : Prop where
  contains : s.currentEpoch.containsBlock (s.height + 1) = true
  length : s.currentEpoch.endBlock - s.currentEpoch.startBlock + 1 = epochLength g
  number : s.currentEpoch.epochNumber = (s.height + 1) / epochLength g

/-! ### Epochs of two blocks or more -/

theorem epochAt_endBlock {k : ℕ} {vs : ValidatorSet} (h0 : 0 < epochLength g)
    (hlt : k * epochLength g + epochLength g < 2 ^ 64) :
    (epochAt g k vs).endBlock + 1 = k * epochLength g + epochLength g := by
  have hadd : (addU 64 (k * epochLength g) (epochLength g)).val =
      k * epochLength g + epochLength g := Nat.mod_eq_of_lt hlt
  show (subU 64 (addU 64 (k * epochLength g) (epochLength g)).val 1).val + 1 = _
  rw [hadd, subU_of_le (by omega)]
  dsimp only
  omega

variable {s : ChainState Database}

theorem scheduled_of_live {n : ℕ} (h1 : 1 < epochLength g) (hlt : n + epochLength g + 2 < 2 ^ 64)
    (h : Live g n s) : Scheduled g s := by
  obtain ⟨hheight, hepoch⟩ := h
  have hlive : liveEpoch g n = (n + 1) / epochLength g := if_neg (by omega)
  have hle : (n + 1) / epochLength g * epochLength g ≤ n + 1 := Nat.div_mul_le_self _ _
  have hnext : n + 1 < (n + 1) / epochLength g * epochLength g + epochLength g :=
    Nat.lt_div_mul_add (by omega)
  have hend := @epochAt_endBlock g ((n + 1) / epochLength g) s.currentEpoch.validatorSet
    (by omega) (by omega)
  have hstart : s.currentEpoch.startBlock = (n + 1) / epochLength g * epochLength g := by
    rw [hepoch, hlive]
    rfl
  rw [hlive] at hepoch
  rw [← hepoch] at hend
  refine ⟨?_, ?_, ?_⟩
  · rw [EpochInfo.containsBlock, Bool.and_eq_true, decide_eq_true_eq, decide_eq_true_eq, hheight]
    omega
  · omega
  · rw [hepoch, hheight]
    rfl

theorem nextEpoch_ovf {params : ConsensusParams} {now : ℕ}
    (hnum : s.currentEpoch.epochNumber + 1 < 2 ^ 64)
    (hlt : s.height + 1 + params.epochLength < 2 ^ 64) : (nextEpoch params now s).ovf = false := by
  have hstart : addU 64 s.height 1 = ⟨s.height + 1, false⟩ := by
    unfold addU
    rw [Nat.mod_eq_of_lt (by omega), decide_eq_false (by omega)]
  have hnext : addU 64 (s.height + 1) params.epochLength =
      ⟨s.height + 1 + params.epochLength, false⟩ := by
    unfold addU
    rw [Nat.mod_eq_of_lt hlt, decide_eq_false (by omega)]
  have hn : (addU 64 s.currentEpoch.epochNumber 1).ovf = false := decide_eq_false (by omega)
  unfold nextEpoch
  simp only [ovf_bind, hstart, hnext, hn]
  rw [subU_of_le (by omega)]
  rfl

theorem maybeAdvanceEpoch_ovf {params : ConsensusParams} {now : ℕ}
    (h : (nextEpoch params now s).ovf = false) : (maybeAdvanceEpoch params now s).ovf = false := by
  unfold maybeAdvanceEpoch
  split_ifs
  · rfl
  · exact h

theorem epochArithmetic_of_live {n : ℕ} (h1 : 1 < epochLength g)
    (hlt : n + epochLength g + 2 < 2 ^ 64) (h : Live g n s) : EpochArithmetic P W cfg g s := by
  refine ⟨?_, ?_, ?_⟩
  · rw [subU_of_le (by omega)]
  · rw [h.height, reloadedEpoch_eq (by omega) (by omega)]
    simp
  · rintro ord cache block t now ⟨a, rs, ha, hok, rfl⟩
    obtain ⟨-, hnum, l, -, rfl⟩ := applyBlock_ok ha hok
    have hheight : block.header.number = n + 1 := by
      rw [hnum, h.height]
      exact Nat.mod_eq_of_lt (by omega)
    have hepoch : s.currentEpoch.epochNumber = liveEpoch g n := by
      rw [h.epoch]
      rfl
    have hsmall : liveEpoch g n ≤ n + 1 := by
      unfold liveEpoch
      split_ifs
      · omega
      · exact Nat.div_le_self _ _
    refine maybeAdvanceEpoch_ovf (nextEpoch_ovf ?_ ?_)
    · show s.currentEpoch.epochNumber + 1 < 2 ^ 64
      omega
    · show block.header.number + 1 + epochLength g < 2 ^ 64
      omega

/-! ### Shorter epochs -/

theorem not_scheduled_start (h : Started P g s) (hshort : epochLength g ≤ 1) : ¬ Scheduled g s := by
  obtain ⟨d, hd⟩ := h
  obtain ⟨-, b, -, ⟨-, rfl⟩ | ⟨hg, -⟩⟩ := fromGenesis_ok P hd
  · intro hs
    have hlength : (subU 64 (epochLength g) 1).val - 0 + 1 = epochLength g := hs.length
    have hcontains := hs.contains
    rw [EpochInfo.containsBlock, Bool.and_eq_true, decide_eq_true_eq, decide_eq_true_eq]
      at hcontains
    have hend : 0 + 1 ≤ (subU 64 (epochLength g) 1).val := hcontains.2
    omega
  · cases hg

/-- **The epoch schedule.** For a valid genesis file, every run of blocks keeps the schedule, with
all epoch arithmetic in range, if and only if an epoch has at least two blocks. The numbers of the
run stay below the wrap of `u64`. -/
theorem epoch_schedule_iff (P : Primitives) (W : Wasmtime) (cfg : VmConfig) {g : GenesisConfig}
    (hv : g.validate = .ok ()) :
    (∀ (s₀ s : ChainState Database) (inputs : List (EngineInput W)), Started P g s₀ →
      Run (EngineStep P W cfg g g.consensusParams) Free s₀ inputs s →
      inputs.length + epochLength g + 2 < 2 ^ 64 →
        EpochArithmetic P W cfg g s ∧ Scheduled g s) ↔ 2 ≤ epochLength g := by
  constructor
  · intro hall
    by_contra hshort
    have hne : ∃ b, g.toGenesisBlock = some b := by
      cases hvs : g.initialValidators with
      | nil => exact absurd hvs (GenesisConfig.validate_ok.mp hv).1
      | cons v l => exact ⟨_, by rw [GenesisConfig.toGenesisBlock, hvs]; rfl⟩
    obtain ⟨b, hb⟩ := hne
    have hstart : Started P g ⟨b, 0, firstEpoch g, initialized P g b .empty⟩ :=
      ⟨_, fromGenesis_fresh P hv hb rfl⟩
    have hbound : ([] : List (EngineInput W)).length + epochLength g + 2 < 2 ^ 64 := by
      rw [List.length_nil]
      omega
    exact not_scheduled_start hstart (by omega) (hall _ _ [] hstart .nil hbound).2
  · intro h2 s₀ s inputs h0 hrun hlt
    have hlive : Live g inputs.length s := live_of_run (by omega) (by omega) h0 hrun (by omega)
    exact ⟨epochArithmetic_of_live (by omega) hlt hlive, scheduled_of_live (by omega) hlt hlive⟩

namespace Small

def shortEpochs : GenesisConfig :=
  { genesis with consensusParams := { genesis.consensusParams with epochLength := 1 } }

def shortStart : ChainState Database :=
  ⟨genesisBlock, 0, firstEpoch shortEpochs, initialized .small shortEpochs genesisBlock .empty⟩

theorem shortStarted : Started .small shortEpochs shortStart :=
  ⟨_, fromGenesis_fresh .small (by decide +kernel) rfl rfl⟩

end Small

theorem small_chain_scheduled : ∃ s, EngineStep .small .small .default Small.genesis
      Small.genesis.consensusParams Small.start (Small.input (Small.next Small.genesisBlock [])) s ∧
    s.height = 1 ∧ Scheduled Small.genesis s := by
  obtain ⟨a, rs, ha, hok, hh⟩ := Small.apply_ok Small.start (Small.next Small.genesisBlock [])
    (p := fun a => (Small.advanced a).height = 1) (by decide +kernel)
  have hrun := Small.run_advanced ha hok
  refine ⟨Small.advanced a, ⟨a.state, ⟨a, rs, ha, hok, rfl⟩, rfl⟩, hh, ?_⟩
  exact ((epoch_schedule_iff .small .small .default (by decide +kernel)).mpr (by decide)
    _ _ _ Small.started hrun (by decide)).2

/-- With epochs of one block the chain is off its schedule from the start, and after the next block
it is still in epoch 0, which ended with the genesis block. -/
theorem one_block_epoch_never_ends : Small.shortEpochs.validate = .ok () ∧
    Started .small Small.shortEpochs Small.shortStart ∧
    ¬ Scheduled Small.shortEpochs Small.shortStart ∧
    ∃ s, EngineStep .small .small .default Small.shortEpochs Small.shortEpochs.consensusParams
        Small.shortStart (Small.input (Small.next Small.genesisBlock [])) s ∧
      s.height = 1 ∧ s.currentEpoch.epochNumber = 0 ∧ s.currentEpoch.endBlock = 0 := by
  obtain ⟨a, rs, ha, hok, hp⟩ := Small.apply_ok Small.shortStart (Small.next Small.genesisBlock [])
    (p := fun a =>
      ((maybeAdvanceEpoch Small.shortEpochs.consensusParams 0 a.state).val.2.height = 1 ∧
      (maybeAdvanceEpoch Small.shortEpochs.consensusParams 0 a.state).val.2.currentEpoch.epochNumber
        = 0 ∧
      (maybeAdvanceEpoch Small.shortEpochs.consensusParams 0 a.state).val.2.currentEpoch.endBlock
        = 0)) (by decide +kernel)
  exact ⟨by decide +kernel, Small.shortStarted,
    not_scheduled_start Small.shortStarted (by decide), _, ⟨a.state, ⟨a, rs, ha, hok, rfl⟩, rfl⟩,
    hp⟩

end Rustchain.Consensus
