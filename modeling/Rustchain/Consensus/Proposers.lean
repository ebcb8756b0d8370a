import Rustchain.Consensus.State

/-! # Proposer selection

The lottery of `ProposerSelection`: a seed from the parent hash and the block number, a number below
the total stake, and a walk over the active validators until the cumulative stake passes it. The
lottery needs a validator, and where there are several, a total stake that is not zero. -/

namespace Rustchain.Consensus

open Rustchain.Core Lib.Machine

namespace ProposerSelection

/-- The first validator at which the cumulative stake passes the target; `last` is the fallback. -/
def walk (target : ℕ) (last : Address) : ℕ → List ValidatorInfo → Flagged Address
  | _, [] => pure last
  | cumulative, v :: rest => do
    let cumulative ← addU 128 cumulative v.stake
    if target < cumulative then return v.address
    walk target v.address cumulative rest

section
variable (P : Primitives)

def seed (parentHash : Blake3Hash) (blockNumber : ℕ) : Blake3Hash :=
  hashMultiple P [parentHash.asBytes, leBytes 64 blockNumber,
    "proposer_selection".toUTF8.data.toList]

/-- **`ProposerSelection::select_proposer`.** -/
def selectProposer (activeValidators : List ValidatorInfo) (parentHash : Blake3Hash)
    (blockNumber : ℕ) : Flagged (Except ConsensusError Address) :=
  match activeValidators with
  | [] => pure (.error (.epoch "no active validators"))
  | [v] => pure (.ok v.address)
  | v :: rest => do
    let totalStake ← sumU 128 ((v :: rest).map (·.stake))
    if totalStake = 0 then return .error (.epoch "total stake is zero")
    let target := P.genRange (seed P parentHash blockNumber) totalStake
    let chosen ← walk target v.address 0 (v :: rest)
    return .ok chosen

/-- **`ProposerSelection::verify_proposer`.** -/
def verifyProposer (proposer : Address) (activeValidators : List ValidatorInfo)
    (parentHash : Blake3Hash) (blockNumber : ℕ) : Flagged (Except ConsensusError Unit) := do
  let expected ← selectProposer P activeValidators parentHash blockNumber
  return match expected with
    | .error e => .error e
    | .ok a => if proposer ≠ a then .error (.wrongProposer a.toHex proposer.toHex) else .ok ()

end

variable {P : Primitives}

theorem verifyProposer_ok {proposer : Address} {vs : List ValidatorInfo} {parentHash : Blake3Hash}
    {n : ℕ} : (verifyProposer P proposer vs parentHash n).val = .ok () ↔
      (selectProposer P vs parentHash n).val = .ok proposer := by
  unfold verifyProposer
  rw [val_bind, val_pure]
  cases (selectProposer P vs parentHash n).val with
  | error e => simp
  | ok a =>
    dsimp only
    split_ifs with h
    · simpa using Ne.symm h
    · simp [not_not.mp h]

theorem walk_mem {target : ℕ} : ∀ {vs : List ValidatorInfo} {last : Address} {c : ℕ},
    (walk target last c vs).val = last ∨ (walk target last c vs).val ∈ vs.map (·.address)
  | [], _, _ => .inl rfl
  | v :: rest, last, c => by
    unfold walk
    rw [val_bind]
    split_ifs with hlt
    · exact .inr (by simp)
    · rcases @walk_mem target rest v.address (addU 128 c v.stake).val with h | h
      · exact .inr (by simp [h])
      · exact .inr (by simp [h])

theorem selectProposer_mem {vs : List ValidatorInfo} {parentHash : Blake3Hash} {n : ℕ}
    {a : Address} (h : (selectProposer P vs parentHash n).val = .ok a) :
    a ∈ vs.map (·.address) := by
  unfold selectProposer at h
  split at h
  · cases h
  · obtain rfl := Except.ok.inj h
    simp
  · rw [val_bind] at h
    split_ifs at h
    obtain rfl := Except.ok.inj h
    rcases walk_mem with hw | hw
    · rw [hw]
      simp
    · exact hw

/-- **The lottery has a winner** if the stakes of the validators add up to a positive number that
fits into `u128`. -/
theorem selectProposer_ok {vs : List ValidatorInfo} (hpos : 0 < (vs.map (·.stake)).sum)
    (hfits : (vs.map (·.stake)).sum < 2 ^ 128) (parentHash : Blake3Hash) (n : ℕ) :
    ∃ a, (selectProposer P vs parentHash n).val = .ok a := by
  unfold selectProposer
  split
  · simp at hpos
  · exact ⟨_, rfl⟩
  · rename_i v rest _
    have htotal : (sumU 128 ((v :: rest).map (·.stake))).val ≠ 0 := by
      show ((v :: rest).map (·.stake)).sum % 2 ^ 128 ≠ 0
      rw [Nat.mod_eq_of_lt hfits]
      omega
    rw [val_bind, if_neg htotal]
    exact ⟨_, rfl⟩

end ProposerSelection

end Rustchain.Consensus
