import Rustchain.Consensus.State

/-! # The finality engine

Validators vote for blocks; a height is final once the stakes behind the votes stored for it reach
the quorum threshold. The engine keeps the votes of a height in a list, in the order they came, and
drops them when the height becomes final. -/

namespace Rustchain.Consensus

open Rustchain.Core Lib.Machine Lib.Maps

structure FinalityVote where
  blockNumber : ℕ
  blockHash : Blake3Hash
  validator : Address
  validatorPubkey : PublicKey
  signature : Signature
  timestamp : ℕ
  deriving DecidableEq, Repr

namespace FinalityVote

variable (P : Primitives)

/-- The bytes that a vote for a block signs. -/
def voteData (blockNumber : ℕ) (blockHash : Blake3Hash) : Bytes :=
  leBytes 64 blockNumber ++ blockHash.asBytes ++ "finality_vote".toUTF8.data.toList

/-- `FinalityVote::new` at the clock reading `now`. -/
def new (blockNumber : ℕ) (blockHash : Blake3Hash) (k : KeyPair) (now : ℕ) :
    FinalityVote :=
  ⟨blockNumber, blockHash, k.address P, k.publicKey P, k.sign P (voteData blockNumber blockHash),
    now⟩

/-- `FinalityVote::verify`: the signature under the public key that the vote carries. -/
def verify (v : FinalityVote) : Except ConsensusError Unit :=
  (v.validatorPubkey.verify P (voteData v.blockNumber v.blockHash) v.signature).mapError
    fun _ => .finality "invalid vote signature"

end FinalityVote

inductive FinalityStatus where
  | pending (votedStake needed : ℕ)
  | finalized
  deriving DecidableEq, Repr

structure FinalityEngine where
  votes : HashMap ℕ (List FinalityVote)
  finalizedHeight : ℕ
  validatorSet : ValidatorSet

namespace FinalityEngine

def new (validatorSet : ValidatorSet) : FinalityEngine := ⟨∅, 0, validatorSet⟩

def votesAt (e : FinalityEngine) (n : ℕ) : List FinalityVote :=
  (e.votes.lookup n).getD []

/-- `votes.entry(n).or_default().push(vote)`. -/
def pushVote (e : FinalityEngine) (v : FinalityVote) : FinalityEngine :=
  { e with votes := e.votes.insert v.blockNumber (e.votesAt v.blockNumber ++ [v]) }

/-- The stakes that a list of votes brings, in the order of the votes. -/
def votedStakes (vs : ValidatorSet) (votes : List FinalityVote) : List ℕ :=
  votes.filterMap fun v => (vs.getValidator v.validator).map (·.stake)

/-- Remove the votes of all heights up to `n`. -/
def dropVotes (e : FinalityEngine) (n : ℕ) : FinalityEngine :=
  { e with
    votes := (e.votes.keys.filter fun k => decide (k ≤ n)).foldl (fun m k => m.erase k) e.votes }

def checkQuorum (e : FinalityEngine) (n : ℕ) : FinalityStatus × FinalityEngine :=
  let threshold := e.validatorSet.quorumThreshold.val
  match e.votes.lookup n with
  | none => (.pending 0 threshold, e)
  | some votes =>
    let votedStake := (sumU 128 (votedStakes e.validatorSet votes)).val
    if threshold ≤ votedStake then
      let e := if e.finalizedHeight < n then { e with finalizedHeight := n } else e
      (.finalized, e.dropVotes n)
    else (.pending votedStake threshold, e)

/-- **`add_vote`**: the status or error, and the engine afterwards. -/
def addVote (P : Primitives) (e : FinalityEngine) (v : FinalityVote) :
    Except ConsensusError FinalityStatus × FinalityEngine :=
  match v.verify P with
  | .error err => (.error err, e)
  | .ok _ =>
    if e.validatorSet.isValidator v.validator = false then
      (.error (.finality s!"voter {v.validator.toHex} is not an active validator"), e)
    else if v.blockNumber ≤ e.finalizedHeight then (.ok .finalized, e)
    else
      let r := (e.pushVote v).checkQuorum v.blockNumber
      (.ok r.1, r.2)

def isFinalized (e : FinalityEngine) (n : ℕ) : Bool := decide (n ≤ e.finalizedHeight)

def updateValidatorSet (e : FinalityEngine) (vs : ValidatorSet) : FinalityEngine :=
  { e with validatorSet := vs }

/-! ### What the operations do -/

@[simp] theorem votesAt_new (vs : ValidatorSet) (n : ℕ) : (new vs).votesAt n = [] := rfl

variable (e : FinalityEngine) (v : FinalityVote)

@[simp] theorem pushVote_validatorSet : (e.pushVote v).validatorSet = e.validatorSet := rfl

@[simp] theorem pushVote_finalizedHeight : (e.pushVote v).finalizedHeight = e.finalizedHeight := rfl

theorem votesAt_pushVote (n : ℕ) :
    (e.pushVote v).votesAt n =
      if n = v.blockNumber then e.votesAt v.blockNumber ++ [v] else e.votesAt n := by
  unfold votesAt pushVote
  split_ifs with h
  · subst h; rw [AList.lookup_insert]; rfl
  · rw [AList.lookup_insert_ne h]

theorem lookup_foldl_erase (n : ℕ) : ∀ (l : List ℕ)
    (m : HashMap ℕ (List FinalityVote)),
    (l.foldl (fun m k => m.erase k) m).lookup n = if n ∈ l then none else m.lookup n
  | [], m => by simp
  | k :: l, m => by
    rw [List.foldl_cons, lookup_foldl_erase n l]
    by_cases hl : n ∈ l
    · simp [hl]
    · by_cases hk : n = k
      · subst hk; simp [hl]
      · simp [hl, hk, AList.lookup_erase_ne hk]

theorem votesAt_dropVotes (n k : ℕ) :
    (e.dropVotes n).votesAt k = if k ≤ n then [] else e.votesAt k := by
  unfold votesAt dropVotes
  rw [lookup_foldl_erase]
  by_cases hk : k ≤ n
  · by_cases hm : k ∈ e.votes.keys
    · simp [hk, hm]
    · have hn : e.votes.lookup k = none := AList.lookup_eq_none.mpr hm
      simp [hk, hn]
  · simp [hk]

/-- The checks that a vote passes before it is stored. -/
def Accepts (P : Primitives) (e : FinalityEngine) (v : FinalityVote) : Prop :=
  P.verify v.validatorPubkey (FinalityVote.voteData v.blockNumber v.blockHash) v.signature = true ∧
    e.validatorSet.isValidator v.validator = true ∧ e.finalizedHeight < v.blockNumber

instance (P : Primitives) (e : FinalityEngine) (v : FinalityVote) : Decidable (e.Accepts P v) := by
  unfold Accepts; infer_instance

/-- The votes that the quorum check after a stored vote adds up. -/
def tally (e : FinalityEngine) (v : FinalityVote) : List FinalityVote :=
  e.votesAt v.blockNumber ++ [v]

theorem verify_eq_ok {P : Primitives} {v : FinalityVote} :
    v.verify P = .ok () ↔
      P.verify v.validatorPubkey (FinalityVote.voteData v.blockNumber v.blockHash) v.signature =
        true := by
  unfold FinalityVote.verify
  rw [← PublicKey.verify_eq_ok P]
  cases v.validatorPubkey.verify P (FinalityVote.voteData v.blockNumber v.blockHash) v.signature
  · simp [Except.mapError]
  · simp [Except.mapError]

theorem addVote_of_not_accepts {P : Primitives} {e : FinalityEngine} {v : FinalityVote}
    (h : ¬ e.Accepts P v) : (e.addVote P v).2 = e := by
  unfold addVote
  cases hv : v.verify P with
  | error err => rfl
  | ok _ =>
    by_cases ha : e.validatorSet.isValidator v.validator = false
    · simp [ha]
    · have hf : v.blockNumber ≤ e.finalizedHeight := by
        by_contra hf
        exact h ⟨verify_eq_ok.mp hv, by simpa using ha, Nat.not_le.mp hf⟩
      simp [ha, hf]

/-- **What an accepted vote does**: it is stored, and if the stakes behind the votes of its height
reach the threshold, the height becomes final and the votes up to it are dropped. -/
theorem addVote_of_accepts {P : Primitives} {e : FinalityEngine} {v : FinalityVote}
    (h : e.Accepts P v) :
    (e.addVote P v).2 =
      if e.validatorSet.quorumThreshold.val ≤
          (sumU 128 (votedStakes e.validatorSet (e.tally v))).val then
        { e.pushVote v with finalizedHeight := v.blockNumber }.dropVotes v.blockNumber
      else e.pushVote v := by
  obtain ⟨hv, ha, hf⟩ := h
  have hl : (e.pushVote v).votes.lookup v.blockNumber = some (e.tally v) := by
    unfold pushVote; rw [AList.lookup_insert]; rfl
  have hq : (e.addVote P v).2 = ((e.pushVote v).checkQuorum v.blockNumber).2 := by
    unfold addVote
    simp [verify_eq_ok.mpr hv, ha, Nat.not_le.mpr hf]
  rw [hq]
  unfold checkQuorum
  simp only [hl, pushVote_validatorSet, pushVote_finalizedHeight, hf, if_true]
  split_ifs
  · rfl
  · rfl

end FinalityEngine

end Rustchain.Consensus
