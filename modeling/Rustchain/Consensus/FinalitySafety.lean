import Mathlib.Algebra.Order.BigOperators.Group.Finset
import Rustchain.Consensus.Finality
import Rustchain.Lib.Runs

/-! # What finality rests on

Runs of a finality engine under arbitrary votes and changes of the validator set. The engine adds up
the stakes behind a list of votes; the first result says when that sum is the stake of a real quorum
for one block, the second when a vote under an address was signed with a key of that address. -/

namespace Rustchain.Consensus

open Rustchain.Core Lib.Machine Lib.Maps Lib.Runs

/-- The calls that change a finality engine. -/
inductive FinalityOp where
  | addVote (v : FinalityVote)
  | updateValidatorSet (vs : ValidatorSet)

/-- A finality engine with the record of the votes it stored. -/
structure FinalityRecord where
  engine : FinalityEngine
  accepted : List FinalityVote

namespace FinalityRecord

variable (P : Primitives)

def start (vs : ValidatorSet) : FinalityRecord := ⟨FinalityEngine.new vs, []⟩

def apply (r : FinalityRecord) : FinalityOp → FinalityRecord
  | .addVote v =>
    ⟨(r.engine.addVote P v).2, if r.engine.Accepts P v then r.accepted ++ [v] else r.accepted⟩
  | .updateValidatorSet vs => ⟨r.engine.updateValidatorSet vs, r.accepted⟩

def Step (r : FinalityRecord) (op : FinalityOp) (r' : FinalityRecord) : Prop := r.apply P op = r'

/-! ### Stored votes -/

variable {r : FinalityRecord}

theorem mem_votesAt_apply {op : FinalityOp} {n : ℕ} {w : FinalityVote}
    (h : w ∈ (r.apply P op).engine.votesAt n) :
    w ∈ r.engine.votesAt n ∨ op = .addVote w ∧ r.engine.Accepts P w ∧ w.blockNumber = n := by
  cases op with
  | updateValidatorSet vs => exact .inl h
  | addVote v =>
    by_cases ha : r.engine.Accepts P v
    · have hp : w ∈ (r.engine.pushVote v).votesAt n := by
        simp only [apply, FinalityEngine.addVote_of_accepts ha] at h
        split_ifs at h
        · rw [FinalityEngine.votesAt_dropVotes] at h
          split_ifs at h
          · simp at h
          · exact h
        · exact h
      rw [FinalityEngine.votesAt_pushVote] at hp
      split_ifs at hp with hn
      · rcases List.mem_append.mp hp with hp | hp
        · exact .inl (hn ▸ hp)
        · obtain rfl := List.mem_singleton.mp hp
          exact .inr ⟨rfl, ha, hn.symm⟩
      · exact .inl hp
    · simp only [apply, FinalityEngine.addVote_of_not_accepts ha] at h
      exact .inl h

/-- Every stored vote was accepted and stands under its own height. -/
def Stored (r : FinalityRecord) : Prop :=
  ∀ n, ∀ w ∈ r.engine.votesAt n, w ∈ r.accepted ∧ w.blockNumber = n

theorem stored_apply (op : FinalityOp) (h : r.Stored) : (r.apply P op).Stored := by
  intro n w hw
  rcases mem_votesAt_apply P hw with hw | ⟨rfl, ha, hn⟩
  · obtain ⟨h1, h2⟩ := h n w hw
    refine ⟨?_, h2⟩
    cases op with
    | updateValidatorSet vs => exact h1
    | addVote v =>
      simp only [apply]
      split_ifs
      · exact List.mem_append_left _ h1
      · exact h1
  · refine ⟨?_, hn⟩
    simp [apply, ha]

theorem stored_of_run {G : FinalityRecord → FinalityOp → Prop} {vs : ValidatorSet}
    {ops : List FinalityOp} (h : Run (Step P) G (start vs) ops r) :
    r.Stored := by
  refine h.invariant ?_ ?_
  · intro n w hw
    simp [start] at hw
  · rintro t op u ht - rfl
    exact stored_apply P op ht

theorem accepted_delivered {G : FinalityRecord → FinalityOp → Prop} {vs : ValidatorSet}
    {ops : List FinalityOp} (h : Run (Step P) G (start vs) ops r) :
    ∀ w ∈ r.accepted, FinalityOp.addVote w ∈ ops := by
  refine h.history (I := fun l t => ∀ w ∈ t.accepted, FinalityOp.addVote w ∈ l) ?_ ?_
  · intro w hw
    simp [start] at hw
  · rintro l t op u ht - rfl w hw
    have hcases : w ∈ t.accepted ∨ op = .addVote w := by
      cases op with
      | updateValidatorSet vs => exact .inl hw
      | addVote v =>
        simp only [apply] at hw
        split_ifs at hw
        · rcases List.mem_append.mp hw with hw | hw
          · exact .inl hw
          · obtain rfl := List.mem_singleton.mp hw
            exact .inr rfl
        · exact .inl hw
    rcases hcases with hw | rfl
    · exact List.mem_append_left _ (ht w hw)
    · simp

theorem mem_accepted_of_mem_tally (hr : r.Stored) {v w : FinalityVote} (ha : r.engine.Accepts P v)
    (hw : w ∈ r.engine.tally v) :
    w ∈ (r.apply P (.addVote v)).accepted ∧ w.blockNumber = v.blockNumber := by
  simp only [apply, if_pos ha]
  rcases List.mem_append.mp hw with hw | hw
  · exact ⟨List.mem_append_left _ (hr _ w hw).1, (hr _ w hw).2⟩
  · obtain rfl := List.mem_singleton.mp hw
    exact ⟨List.mem_append_right _ hw, rfl⟩

end FinalityRecord

/-! ### Quorums -/

/-- The stake under which a validator set lists an address. -/
def stakeOf (vs : ValidatorSet) (a : Address) : ℕ :=
  ((vs.getValidator a).map (·.stake)).getD 0

/-- The entry under which a validator set lists an address is active. -/
def ActiveIn (vs : ValidatorSet) (a : Address) : Prop :=
  ∃ vi ∈ vs.getValidator a, vi ∈ vs.activeValidators

instance (vs : ValidatorSet) (a : Address) : Decidable (ActiveIn vs a) := by
  unfold ActiveIn; infer_instance

/-- **A quorum for one block**: distinct active validators, each with an accepted vote for the same
hash at height `h`, whose stakes reach the threshold. -/
def HasQuorum (vs : ValidatorSet) (accepted : List FinalityVote) (h : ℕ) : Prop :=
  ∃ (B : Blake3Hash) (A : Finset Address),
    (∀ a ∈ A, ActiveIn vs a ∧
      ∃ v ∈ accepted, v.blockNumber = h ∧ v.blockHash = B ∧ v.validator = a) ∧
    vs.quorumThreshold.val ≤ ∑ a ∈ A, stakeOf vs a

/-- The votes of a tally whose voter the current validator set lists. -/
def FinalityEngine.counted (e : FinalityEngine) (v : FinalityVote) : List FinalityVote :=
  (e.tally v).filter fun w => (e.validatorSet.getValidator w.validator).isSome

/-- The votes that `v` would be counted with: one per validator, all for the hash of `v`, and only
of validators that are active now. -/
def FinalityEngine.Clean (e : FinalityEngine) (v : FinalityVote) : Prop :=
  ((e.counted v).map (·.validator)).Nodup ∧
    ∀ w ∈ e.counted v, w.blockHash = v.blockHash ∧ ActiveIn e.validatorSet w.validator

instance (e : FinalityEngine) (v : FinalityVote) : Decidable (e.Clean v) := by
  unfold FinalityEngine.Clean; infer_instance

/-- The tally is clean whenever the call is an accepted vote. -/
def CleanStep (P : Primitives) (r : FinalityRecord) : FinalityOp → Prop
  | .addVote v => r.engine.Accepts P v → r.engine.Clean v
  | .updateValidatorSet _ => True

theorem votedStakes_eq (vs : ValidatorSet) : ∀ l : List FinalityVote,
    FinalityEngine.votedStakes vs l =
      (l.filter fun w => (vs.getValidator w.validator).isSome).map fun w => stakeOf vs w.validator
  | [] => rfl
  | w :: l => by
    have ih := votedStakes_eq vs l
    unfold FinalityEngine.votedStakes at ih ⊢
    cases hw : vs.getValidator w.validator with
    | none => simp [hw, ih]
    | some vi => simp [stakeOf, hw, ih]

/-- Only an accepted vote whose tally reaches the threshold raises the final height. -/
theorem raised_cases {P : Primitives} {r : FinalityRecord} {op : FinalityOp}
    (h : r.engine.finalizedHeight < (r.apply P op).engine.finalizedHeight) :
    ∃ v, op = .addVote v ∧ r.engine.Accepts P v ∧
      (r.apply P op).engine.finalizedHeight = v.blockNumber ∧
      (r.apply P op).engine.validatorSet = r.engine.validatorSet ∧
      r.engine.validatorSet.quorumThreshold.val ≤
        (FinalityEngine.votedStakes r.engine.validatorSet (r.engine.tally v)).sum := by
  cases op with
  | updateValidatorSet vs => exact absurd h (lt_irrefl _)
  | addVote v =>
    by_cases ha : r.engine.Accepts P v
    · simp only [FinalityRecord.apply, FinalityEngine.addVote_of_accepts ha] at h ⊢
      split_ifs at h ⊢ with hq
      · exact ⟨v, rfl, ha, rfl, rfl, le_trans hq (sumU_val_le _ _)⟩
      · exact absurd h (lt_irrefl _)
    · simp only [FinalityRecord.apply, FinalityEngine.addVote_of_not_accepts ha] at h
      exact absurd h (lt_irrefl _)

/-- **Quorum soundness**: in any run, a call with a clean tally raises the final height only if
there is a quorum for one block at the new height. -/
theorem raised_height_has_quorum (P : Primitives) (vs : ValidatorSet) {ops : List FinalityOp}
    {r : FinalityRecord} (hr : Run (FinalityRecord.Step P) Free (.start vs) ops r)
    {op : FinalityOp} (hclean : CleanStep P r op)
    (h : r.engine.finalizedHeight < (r.apply P op).engine.finalizedHeight) :
    HasQuorum (r.apply P op).engine.validatorSet (r.apply P op).accepted
      (r.apply P op).engine.finalizedHeight := by
  obtain ⟨v, rfl, ha, hheight, hset, hsum⟩ := raised_cases h
  obtain ⟨hnodup, hall⟩ := hclean ha
  rw [hheight, hset]
  refine ⟨v.blockHash, ((r.engine.counted v).map (·.validator)).toFinset, ?_, ?_⟩
  · intro a hA
    obtain ⟨w, hw, rfl⟩ := List.mem_map.mp (List.mem_toFinset.mp hA)
    obtain ⟨hacc, hn⟩ := FinalityRecord.mem_accepted_of_mem_tally P
      (FinalityRecord.stored_of_run P hr) ha (List.mem_of_mem_filter hw)
    exact ⟨(hall w hw).2, w, hacc, hn, (hall w hw).1, rfl⟩
  · rw [List.sum_toFinset _ hnodup, List.map_map]
    rw [votedStakes_eq] at hsum
    exact hsum

theorem HasQuorum.threshold_le {vs : ValidatorSet} {accepted : List FinalityVote} {h : ℕ}
    (hq : HasQuorum vs accepted h) :
    vs.quorumThreshold.val ≤ ∑ a ∈ (accepted.map (·.validator)).toFinset, stakeOf vs a := by
  obtain ⟨B, A, hA, hsum⟩ := hq
  refine le_trans hsum (Finset.sum_le_sum_of_subset fun a ha => ?_)
  obtain ⟨-, v, hv, -, -, rfl⟩ := hA a ha
  exact List.mem_toFinset.mpr (List.mem_map_of_mem hv)

def threeValidators : ValidatorSet :=
  .new ([1, 2, 3].map fun b =>
    .new ((KeyPair.small b).address .small) ((KeyPair.small b).publicKey .small) 100) 10 100

/-- The vote of a key pair for the zero hash at height 1. -/
def smallVote (b : UInt8) : FinalityVote := .new .small 1 Blake3Hash.zero (KeyPair.small b) 0

/-- The engine of the three validators after one vote. -/
def afterOneVote : FinalityRecord :=
  (FinalityRecord.start threeValidators).apply .small (.addVote (smallVote 1))

theorem second_voter_completes_quorum :
    let r := afterOneVote.apply .small (.addVote (smallVote 2))
    HasQuorum r.engine.validatorSet r.accepted r.engine.finalizedHeight := by
  have hrun : Run (FinalityRecord.Step .small) Free (.start threeValidators)
      ([] ++ [.addVote (smallVote 1)]) afterOneVote := .snoc .nil trivial rfl
  have hclean : CleanStep .small afterOneVote (.addVote (smallVote 2)) := fun _ => by decide +kernel
  have hraised : afterOneVote.engine.finalizedHeight <
      (afterOneVote.apply .small (.addVote (smallVote 2))).engine.finalizedHeight := by
    decide +kernel
  exact raised_height_has_quorum .small threeValidators hrun hclean hraised

/-- The same vote delivered twice makes height 1 final with one third of the stake. -/
theorem repeated_vote_finalizes :
    let r := afterOneVote.apply .small (.addVote (smallVote 1))
    afterOneVote.engine.finalizedHeight = 0 ∧ r.engine.finalizedHeight = 1 ∧
      ¬ HasQuorum r.engine.validatorSet r.accepted r.engine.finalizedHeight := by
  refine ⟨by decide +kernel, by decide +kernel, fun hq => ?_⟩
  exact absurd hq.threshold_le (by decide +kernel)

/-! ### Authenticity -/

section
variable (P : Primitives)

/-- The signature of a vote verifies under a public key whose address is the voter. -/
def Authentic (w : FinalityVote) : Prop :=
  ∃ pk : PublicKey, pk.toAddress P = w.validator ∧
    P.verify pk (FinalityVote.voteData w.blockNumber w.blockHash) w.signature = true

/-- An accepted vote carries a public key of the address that it names as the voter. -/
def KeyStep (r : FinalityRecord) : FinalityOp → Prop
  | .addVote v => r.engine.Accepts P v → v.validatorPubkey.toAddress P = v.validator
  | .updateValidatorSet _ => True

theorem authentic_of_keyStep {r : FinalityRecord} {v : FinalityVote} (ha : r.engine.Accepts P v)
    (hk : KeyStep P r (.addVote v)) : Authentic P v := ⟨v.validatorPubkey, hk ha, ha.1⟩

theorem stored_authentic {vs : ValidatorSet} {ops : List FinalityOp} {r : FinalityRecord}
    (hr : Run (FinalityRecord.Step P) (KeyStep P) (.start vs) ops r) :
    ∀ n, ∀ w ∈ r.engine.votesAt n, Authentic P w := by
  refine hr.invariant (I := fun t => ∀ n, ∀ w ∈ t.engine.votesAt n, Authentic P w) ?_ ?_
  · intro n w hw
    simp [FinalityRecord.start] at hw
  · rintro t op u ht hk rfl n w hw
    rcases FinalityRecord.mem_votesAt_apply P hw with hw | ⟨rfl, ha, -⟩
    · exact ht n w hw
    · exact authentic_of_keyStep P ha hk

/-- **Authenticity**: in every run whose accepted votes carry a key of the voter, a vote stored
under the address `a` has a signature that verifies under a key of `a`, and a vote that a quorum
check counts under `a` is for a pair that a key of `a` signed. `Signed pk m` says that the holder of
`pk` signed `m`; unforgeability is assumed of the delivered signatures and the keys of `a`. -/
theorem vote_authentic (vs : ValidatorSet) (a : Address) (Signed : PublicKey → Bytes → Prop)
    {ops : List FinalityOp} {v : FinalityVote} {r : FinalityRecord}
    (unforgeable : ∀ u, FinalityOp.addVote u ∈ ops ++ [.addVote v] →
      ∀ pk : PublicKey, pk.toAddress P = a →
        P.verify pk (FinalityVote.voteData u.blockNumber u.blockHash) u.signature = true →
        Signed pk (FinalityVote.voteData u.blockNumber u.blockHash))
    (hr : Run (FinalityRecord.Step P) (KeyStep P) (.start vs) ops r)
    (hk : KeyStep P r (.addVote v)) :
    (∀ n, ∀ w ∈ r.engine.votesAt n, w.validator = a →
      ∃ pk : PublicKey, pk.toAddress P = a ∧
        P.verify pk (FinalityVote.voteData n w.blockHash) w.signature = true) ∧
    (r.engine.Accepts P v → ∀ w ∈ r.engine.tally v, w.validator = a →
      ∃ pk : PublicKey, pk.toAddress P = a ∧
        Signed pk (FinalityVote.voteData v.blockNumber w.blockHash)) := by
  have hstored := FinalityRecord.stored_of_run P hr
  have hauth := stored_authentic P hr
  refine ⟨?_, ?_⟩
  · rintro n w hw rfl
    obtain ⟨pk, hpk, hv⟩ := hauth n w hw
    exact ⟨pk, hpk, (hstored n w hw).2 ▸ hv⟩
  · rintro ha w hw rfl
    have hn := (FinalityRecord.mem_accepted_of_mem_tally P hstored ha hw).2
    have hw' : Authentic P w ∧ FinalityOp.addVote w ∈ ops ++ [.addVote v] := by
      rcases List.mem_append.mp hw with hw | hw
      · exact ⟨hauth _ w hw, List.mem_append_left _
          (FinalityRecord.accepted_delivered P hr w (hstored _ w hw).1)⟩
      · obtain rfl := List.mem_singleton.mp hw
        exact ⟨authentic_of_keyStep P ha hk, by simp⟩
    obtain ⟨⟨pk, hpk, hv⟩, hdel⟩ := hw'
    exact ⟨pk, hpk, hn ▸ unforgeable w hdel pk hpk hv⟩

end

theorem small_address_ne : (KeyPair.small 2).address .small ≠ (KeyPair.small 1).address .small := by
  decide +kernel

/-- When the second of the three validators votes, the vote counted for the first one is for a pair
that the first one signed; the first one signed nothing else. -/
theorem first_voter_authentic :
    ∃ w ∈ afterOneVote.engine.tally (smallVote 2),
      w.validator = (KeyPair.small 1).address .small ∧
      ∃ pk : PublicKey, pk.toAddress .small = (KeyPair.small 1).address .small ∧
        pk = (KeyPair.small 1).publicKey .small ∧
          FinalityVote.voteData 1 w.blockHash = FinalityVote.voteData 1 Blake3Hash.zero := by
  have hrun : Run (FinalityRecord.Step .small) (KeyStep .small) (.start threeValidators)
      ([] ++ [.addVote (smallVote 1)]) afterOneVote := .snoc .nil (fun _ => rfl) rfl
  have hmem : smallVote 1 ∈ afterOneVote.engine.tally (smallVote 2) := by decide +kernel
  have hacc : afterOneVote.engine.Accepts .small (smallVote 2) := by decide +kernel
  have hunf : ∀ u,
      FinalityOp.addVote u ∈ ([] ++ [.addVote (smallVote 1)]) ++ [.addVote (smallVote 2)] →
      ∀ pk : PublicKey, pk.toAddress .small = (KeyPair.small 1).address .small →
        Primitives.small.verify pk (FinalityVote.voteData u.blockNumber u.blockHash)
          u.signature = true →
        pk = (KeyPair.small 1).publicKey .small ∧
          FinalityVote.voteData u.blockNumber u.blockHash =
            FinalityVote.voteData 1 Blake3Hash.zero := by
    intro u hu pk hpk hv
    have hu' : u = smallVote 1 ∨ u = smallVote 2 := by simpa using hu
    rcases hu' with rfl | rfl
    · exact ⟨Primitives.small_verify_sign (k := KeyPair.small 1) hv, rfl⟩
    · rw [Primitives.small_verify_sign (k := KeyPair.small 2) hv] at hpk
      exact absurd hpk small_address_ne
  have h := (vote_authentic .small threeValidators _
    (fun pk m => pk = (KeyPair.small 1).publicKey .small ∧
      m = FinalityVote.voteData 1 Blake3Hash.zero) hunf hrun (fun _ => rfl)).2 hacc _ hmem rfl
  exact ⟨smallVote 1, hmem, rfl, h⟩

/-- A vote in the name of the first validator, signed with another key. -/
def forgedVote : FinalityVote :=
  { smallVote 66 with validator := (KeyPair.small 1).address .small }

/-- The engine stores the forged vote under the first validator's address, although no key of that
address verifies its signature. -/
theorem forged_vote_stored :
    let r := (FinalityRecord.start threeValidators).apply .small (.addVote forgedVote)
    forgedVote ∈ r.engine.votesAt 1 ∧ ¬ Authentic .small forgedVote := by
  refine ⟨by decide +kernel, ?_⟩
  rintro ⟨pk, hpk, hv⟩
  rw [Primitives.small_verify_sign (k := KeyPair.small 66) hv] at hpk
  exact absurd hpk (by decide +kernel)

end Rustchain.Consensus
