import Rustchain.Consensus.State

/-! # Slashing

`Slasher`: evidence against a validator, the penalty for it, and what the penalty does to a record.
The engine raises evidence for two headers of one validator at one height. -/

namespace Rustchain.Consensus

open Rustchain.Core Lib.Machine

inductive SlashReason where
  | doubleSign (blockA blockB : Blake3Hash) (height : ℕ)
  | downtime (missedBlocks window : ℕ)
  deriving DecidableEq, Repr

structure SlashPenalty where
  amount : ℕ
  jail : Bool
  jailDurationMs : ℕ
  deriving DecidableEq, Repr

structure Slasher where
  params : ConsensusParams

namespace Slasher

/-- A fraction of a stake, in ten-thousandths. -/
def fractionOf (stake fraction : ℕ) : Flagged ℕ := do
  let product ← mulU 128 stake fraction
  return product / 10000

/-- **`evaluate_evidence`.** -/
def evaluateEvidence (s : Slasher) (reason : SlashReason) (validator : ValidatorInfo) :
    Flagged (Option SlashPenalty) :=
  match reason with
  | .doubleSign _ _ _ => do
    let amount ← fractionOf validator.stake s.params.slashFractionDoubleSign
    let jailDurationMs ← mulU 64 s.params.downtimeJailDurationMs 10
    return some ⟨amount, true, jailDurationMs⟩
  | .downtime missedBlocks _ =>
    if s.params.maxMissedBlocks < missedBlocks then do
      let amount ← fractionOf validator.stake s.params.slashFractionDowntime
      return some ⟨amount, true, s.params.downtimeJailDurationMs⟩
    else return none

def jailed (validator : ValidatorInfo) (penalty : SlashPenalty) (currentTime : ℕ) :
    Flagged ValidatorInfo := do
  let untl ← addU 64 currentTime penalty.jailDurationMs
  return { validator with jailedUntil := some untl, isActive := false }

/-- **`apply_slash`** at the clock reading `currentTime`. -/
def applySlash (s : Slasher) (validator : ValidatorInfo) (penalty : SlashPenalty)
    (currentTime : ℕ) : Flagged ValidatorInfo := do
  let slashAmount := min penalty.amount validator.stake
  let slashCount ← addU 32 validator.slashCount 1
  let validator := { validator with stake := validator.stake - slashAmount, slashCount }
  let validator ← if penalty.jail then jailed validator penalty currentTime else pure validator
  return if validator.stake < s.params.minStake then { validator with isActive := false }
    else validator

/-- **`detect_double_sign`.** -/
def detectDoubleSign (hashA hashB : Blake3Hash) (height : ℕ) : Option SlashReason :=
  if hashA ≠ hashB then some (.doubleSign hashA hashB height) else none

end Slasher

end Rustchain.Consensus
