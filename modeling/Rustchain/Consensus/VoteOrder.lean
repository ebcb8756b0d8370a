import Mathlib.Order.Bounds.Basic
import Rustchain.Consensus.FinalitySafety

/-! # Votes in any order

With a fixed validator set, what a finality engine holds is a function of the votes delivered so
far: the final height is the greatest height with a quorum among them, and the map has the accepted
votes for the heights above it. Finalizing a height discards the votes below it, so the description
is an invariant of the delivery (`Delivered`), kept by every call. -/

namespace Rustchain.Consensus

open Rustchain.Core Lib.Machine Lib.Maps

namespace FinalityEngine

variable (P : Primitives) (vs : ValidatorSet)

/-- The checks of `add_vote` on the vote alone: its signature verifies and the voter is an active
validator. -/
def Acceptable (v : FinalityVote) : Prop :=
  v.verify P = .ok () ∧ vs.isValidator v.validator = true

instance (v : FinalityVote) : Decidable (Acceptable P vs v) := by
  unfold Acceptable; infer_instance

/-- The acceptable votes of a list for one height, in the order of the list. -/
def acceptedAt (l : List FinalityVote) (n : ℕ) : List FinalityVote :=
  l.filter fun v => decide (Acceptable P vs v ∧ v.blockNumber = n)

/-- The stakes attached to the acceptable votes for a height. -/
def stakeAt (l : List FinalityVote) (n : ℕ) : ℕ := (votedStakes vs (acceptedAt P vs l n)).sum

/-- There is an acceptable vote for the height, and the stakes reach the threshold. -/
def QuorumAt (l : List FinalityVote) (n : ℕ) : Prop :=
  acceptedAt P vs l n ≠ [] ∧ vs.quorumThreshold.val ≤ stakeAt P vs l n

def deliver (e : FinalityEngine) (l : List FinalityVote) : FinalityEngine :=
  l.foldl (fun e v => (e.addVote P v).2) e

/-! ### Votes of a list -/

theorem acceptedAt_append (l l' : List FinalityVote) (n : ℕ) :
    acceptedAt P vs (l ++ l') n = acceptedAt P vs l n ++ acceptedAt P vs l' n :=
  List.filter_append ..

theorem stakeAt_append (l l' : List FinalityVote) (n : ℕ) :
    stakeAt P vs (l ++ l') n = stakeAt P vs l n + stakeAt P vs l' n := by
  unfold stakeAt votedStakes
  rw [acceptedAt_append, List.filterMap_append, List.sum_append]

theorem acceptedAt_singleton (v : FinalityVote) (n : ℕ) :
    acceptedAt P vs [v] n = if Acceptable P vs v ∧ v.blockNumber = n then [v] else [] := by
  unfold acceptedAt
  split_ifs with h
  · simp [h]
  · simp [h]

theorem acceptedAt_perm {l l' : List FinalityVote} (h : l'.Perm l) (n : ℕ) :
    (acceptedAt P vs l' n).Perm (acceptedAt P vs l n) := h.filter _

theorem stakeAt_perm {l l' : List FinalityVote} (h : l'.Perm l) (n : ℕ) :
    stakeAt P vs l' n = stakeAt P vs l n :=
  ((acceptedAt_perm P vs h n).filterMap _).sum_eq

theorem quorumAt_perm {l l' : List FinalityVote} (h : l'.Perm l) (n : ℕ) :
    QuorumAt P vs l' n ↔ QuorumAt P vs l n := by
  unfold QuorumAt
  rw [stakeAt_perm P vs h n]
  have hnil : acceptedAt P vs l' n = [] ↔ acceptedAt P vs l n = [] := by
    have hp := acceptedAt_perm P vs h n
    constructor
    · intro he
      rw [he] at hp
      exact hp.symm.eq_nil
    · intro he
      rw [he] at hp
      exact hp.eq_nil
  rw [Ne, hnil]

theorem stakeAt_le (l : List FinalityVote) (n : ℕ) : stakeAt P vs l n ≤ (votedStakes vs l).sum :=
  (List.filter_sublist.filterMap _).sum_le_sum fun _ _ => Nat.zero_le _

variable {l : List FinalityVote}

theorem QuorumAt.append {n : ℕ} (h : QuorumAt P vs l n) (l' : List FinalityVote) :
    QuorumAt P vs (l ++ l') n := by
  refine ⟨?_, ?_⟩
  · rw [acceptedAt_append]
    exact fun he => h.1 (List.append_eq_nil_iff.mp he).1
  · rw [stakeAt_append]
    exact le_trans h.2 (Nat.le_add_right _ _)

/-! ### The engine after a list of votes -/

/-- What an engine holds after the votes `l`. -/
structure Delivered (l : List FinalityVote) (e : FinalityEngine) : Prop where
  validatorSet : e.validatorSet = vs
  votes : ∀ n, e.votes.lookup n =
    if e.finalizedHeight < n ∧ acceptedAt P vs l n ≠ [] then some (acceptedAt P vs l n) else none
  reached : e.finalizedHeight = 0 ∨ QuorumAt P vs l e.finalizedHeight
  above : ∀ n, e.finalizedHeight < n → ¬ QuorumAt P vs l n

theorem delivered_new : Delivered P vs [] (new vs) where
  validatorSet := rfl
  votes n := by simp [new, acceptedAt]
  reached := .inl rfl
  above n _ h := h.1 rfl

variable {P vs}

variable {e : FinalityEngine}

theorem Delivered.votesAt (h : Delivered P vs l e) {n : ℕ} (hn : e.finalizedHeight < n) :
    e.votesAt n = acceptedAt P vs l n := by
  unfold FinalityEngine.votesAt
  rw [h.votes n]
  by_cases he : acceptedAt P vs l n = []
  · simp [he]
  · simp [hn, he]

theorem Delivered.accepts_iff (h : Delivered P vs l e) (v : FinalityVote) :
    e.Accepts P v ↔ Acceptable P vs v ∧ e.finalizedHeight < v.blockNumber := by
  unfold Accepts Acceptable
  rw [h.validatorSet, verify_eq_ok, and_assoc]

theorem Delivered.skip (h : Delivered P vs l e) {v : FinalityVote} (hv : ¬ e.Accepts P v) :
    Delivered P vs (l ++ [v]) e := by
  have hsame : ∀ n, e.finalizedHeight < n → acceptedAt P vs [v] n = [] := by
    intro n hn
    rw [acceptedAt_singleton, if_neg]
    rintro ⟨ha, rfl⟩
    exact hv ((h.accepts_iff v).mpr ⟨ha, hn⟩)
  refine ⟨h.validatorSet, ?_, ?_, ?_⟩
  · intro n
    rw [h.votes n, acceptedAt_append]
    by_cases hn : e.finalizedHeight < n
    · rw [hsame n hn, List.append_nil]
    · simp [hn]
  · exact h.reached.imp_right fun hq => hq.append P vs _
  · rintro n hn ⟨hne, hq⟩
    rw [acceptedAt_append, hsame n hn, List.append_nil] at hne
    refine h.above n hn ⟨hne, ?_⟩
    rw [stakeAt_append] at hq
    simpa [stakeAt, hsame n hn, votedStakes] using hq

theorem Delivered.push (h : Delivered P vs l e) {v : FinalityVote} (hv : e.Accepts P v)
    (hq : ¬ QuorumAt P vs (l ++ [v]) v.blockNumber) :
    Delivered P vs (l ++ [v]) (e.pushVote v) := by
  obtain ⟨ha, hf⟩ := (h.accepts_iff v).mp hv
  refine ⟨h.validatorSet, ?_, ?_, ?_⟩
  · intro n
    unfold pushVote
    rw [acceptedAt_append, acceptedAt_singleton]
    by_cases hn : n = v.blockNumber
    · subst hn
      rw [AList.lookup_insert, h.votesAt hf]
      simp [ha, hf]
    · have hne : ¬ (Acceptable P vs v ∧ v.blockNumber = n) := fun he => hn he.2.symm
      rw [AList.lookup_insert_ne hn, h.votes n, if_neg hne, List.append_nil]
  · exact h.reached.imp_right fun hr => hr.append P vs _
  · intro n hn hqn
    by_cases he : n = v.blockNumber
    · exact hq (he ▸ hqn)
    · have hnil : acceptedAt P vs [v] n = [] := by
        rw [acceptedAt_singleton, if_neg fun hc => he hc.2.symm]
      refine h.above n hn ⟨?_, ?_⟩
      · have hne := hqn.1
        rwa [acceptedAt_append, hnil, List.append_nil] at hne
      · have hs := hqn.2
        rw [stakeAt_append] at hs
        simpa [stakeAt, hnil, votedStakes] using hs

/-- A vote that completes a quorum: its height is final, the votes up to it are gone and those above
it stay. -/
theorem Delivered.finalize (h : Delivered P vs l e) {v : FinalityVote} (hv : e.Accepts P v)
    (hq : QuorumAt P vs (l ++ [v]) v.blockNumber) :
    Delivered P vs (l ++ [v])
      ({ e.pushVote v with finalizedHeight := v.blockNumber }.dropVotes v.blockNumber) := by
  obtain ⟨-, hf⟩ := (h.accepts_iff v).mp hv
  -- above the new height the call changes neither the map nor the votes of the list
  have habove : ∀ n, v.blockNumber < n →
      acceptedAt P vs (l ++ [v]) n = acceptedAt P vs l n := by
    intro n hn
    rw [acceptedAt_append, acceptedAt_singleton, if_neg fun hc => by omega, List.append_nil]
  refine ⟨h.validatorSet, ?_, .inr hq, ?_⟩
  · intro n
    show (List.foldl _ (e.pushVote v).votes _).lookup n = _
    rw [lookup_foldl_erase]
    by_cases hn : v.blockNumber < n
    · have hne : n ≠ v.blockNumber := by omega
      have hfn : e.finalizedHeight < n := by omega
      have hlookup : (e.pushVote v).votes.lookup n = e.votes.lookup n :=
        AList.lookup_insert_ne hne
      rw [if_neg (by simp [hn]), hlookup, h.votes n, habove n hn]
      simp [dropVotes, hn, hfn]
    · have hdrop : ¬ (v.blockNumber < n ∧ acceptedAt P vs (l ++ [v]) n ≠ []) := fun hc => hn hc.1
      rw [show (dropVotes _ _).finalizedHeight = v.blockNumber from rfl, if_neg hdrop]
      split_ifs with hm
      · rfl
      · rw [AList.lookup_eq_none]
        intro hk
        exact hm (List.mem_filter.mpr ⟨hk, by simpa using hn⟩)
  · intro n (hn : v.blockNumber < n) hqn
    have hs : stakeAt P vs (l ++ [v]) n = stakeAt P vs l n := by
      unfold stakeAt
      rw [habove n hn]
    refine h.above n (by omega) ⟨?_, ?_⟩
    · rw [← habove n hn]
      exact hqn.1
    · rw [← hs]
      exact hqn.2

theorem Delivered.addVote (h : Delivered P vs l e) (v : FinalityVote)
    (hsum : stakeAt P vs (l ++ [v]) v.blockNumber < 2 ^ 128) :
    Delivered P vs (l ++ [v]) (e.addVote P v).2 := by
  by_cases hv : e.Accepts P v
  · obtain ⟨ha, hf⟩ := (h.accepts_iff v).mp hv
    have htally : e.tally v = acceptedAt P vs (l ++ [v]) v.blockNumber := by
      unfold tally
      rw [h.votesAt hf, acceptedAt_append, acceptedAt_singleton, if_pos ⟨ha, rfl⟩]
    have hval : (sumU 128 (votedStakes e.validatorSet (e.tally v))).val =
        stakeAt P vs (l ++ [v]) v.blockNumber := by
      rw [htally, h.validatorSet]
      exact Nat.mod_eq_of_lt hsum
    have hne : acceptedAt P vs (l ++ [v]) v.blockNumber ≠ [] := by
      rw [← htally]
      simp [tally]
    rw [addVote_of_accepts hv, hval, h.validatorSet]
    split_ifs with hq
    · exact h.finalize hv ⟨hne, hq⟩
    · exact h.push hv fun hc => hq hc.2
  · rw [addVote_of_not_accepts hv]
    exact h.skip hv

theorem deliver_append (e : FinalityEngine) (l : List FinalityVote) (v : FinalityVote) :
    deliver P e (l ++ [v]) = ((deliver P e l).addVote P v).2 := by
  unfold deliver
  rw [List.foldl_append]
  rfl

theorem delivered_deliver (l : List FinalityVote) (hsum : ∀ n, stakeAt P vs l n < 2 ^ 128) :
    Delivered P vs l (deliver P (new vs) l) := by
  induction l using List.reverseRecOn with
  | nil => exact delivered_new P vs
  | append_singleton l v ih =>
    have hl : ∀ n, stakeAt P vs l n < 2 ^ 128 := by
      intro n
      have h := hsum n
      rw [stakeAt_append] at h
      omega
    rw [deliver_append]
    exact (ih hl).addVote v (hsum v.blockNumber)

theorem finalizedHeight_le_addVote (e : FinalityEngine) (v : FinalityVote) :
    e.finalizedHeight ≤ (e.addVote P v).2.finalizedHeight := by
  by_cases hv : e.Accepts P v
  · rw [addVote_of_accepts hv]
    split_ifs
    · exact le_of_lt hv.2.2
    · exact le_rfl
  · rw [addVote_of_not_accepts hv]

theorem Delivered.isGreatest (h : Delivered P vs l e) :
    IsGreatest (insert 0 {n | QuorumAt P vs l n}) e.finalizedHeight := by
  refine ⟨?_, ?_⟩
  · rcases h.reached with h0 | hq
    · exact Set.mem_insert_iff.mpr (.inl h0)
    · exact Set.mem_insert_of_mem _ hq
  · rintro n (rfl | hn)
    · exact Nat.zero_le _
    · by_contra hlt
      exact h.above n (Nat.not_le.mp hlt) hn

/-- **Vote delivery is confluent**: whatever the order in which votes reach a new engine, the final
height ends as the greatest height with a quorum among them, or 0; no call lowers it; and after
every call the map has exactly the accepted votes so far for the heights above it. -/
theorem vote_delivery_confluent (P : Primitives) (vs : ValidatorSet) (l : List FinalityVote)
    (hsum : ∀ n, stakeAt P vs l n < 2 ^ 128) :
    (∃ m, IsGreatest (insert 0 {n | QuorumAt P vs l n}) m ∧
      ∀ l' : List FinalityVote, l'.Perm l → (deliver P (new vs) l').finalizedHeight = m) ∧
    ∀ l' : List FinalityVote, l'.Perm l →
      (∀ p v, p ++ [v] <+: l' → (deliver P (new vs) p).finalizedHeight ≤
        (deliver P (new vs) (p ++ [v])).finalizedHeight) ∧
      ∀ p, p <+: l' → ∀ n, (deliver P (new vs) p).votes.lookup n =
        if (deliver P (new vs) p).finalizedHeight < n ∧ acceptedAt P vs p n ≠ [] then
          some (acceptedAt P vs p n)
        else none := by
  have hperm : ∀ l' : List FinalityVote, l'.Perm l → ∀ n, stakeAt P vs l' n < 2 ^ 128 := by
    intro l' h n
    rw [stakeAt_perm P vs h n]
    exact hsum n
  refine ⟨⟨_, (delivered_deliver l hsum).isGreatest, ?_⟩, ?_⟩
  · intro l' h
    have hset : {n | QuorumAt P vs l' n} = {n | QuorumAt P vs l n} :=
      Set.ext fun n => quorumAt_perm P vs h n
    have hg := (delivered_deliver l' (hperm l' h)).isGreatest
    rw [hset] at hg
    exact hg.unique (delivered_deliver l hsum).isGreatest
  · intro l' h
    refine ⟨?_, ?_⟩
    · intro p v _
      rw [deliver_append]
      exact finalizedHeight_le_addVote _ v
    · rintro p ⟨rest, rfl⟩
      have hp : ∀ n, stakeAt P vs p n < 2 ^ 128 := by
        intro n
        have hs := hperm _ h n
        rw [stakeAt_append] at hs
        omega
      exact (delivered_deliver p hp).votes

theorem two_votes_confluent :
    (deliver .small (new threeValidators) [smallVote 2, smallVote 1]).finalizedHeight =
      (deliver .small (new threeValidators) [smallVote 1, smallVote 2]).finalizedHeight := by
  have hbound : (votedStakes threeValidators [smallVote 1, smallVote 2]).sum < 2 ^ 128 := by
    decide +kernel
  obtain ⟨⟨m, -, hm⟩, -⟩ := vote_delivery_confluent .small threeValidators
    [smallVote 1, smallVote 2] fun n => lt_of_le_of_lt (stakeAt_le .small _ _ n) hbound
  rw [hm _ (List.Perm.swap ..), hm _ (List.Perm.refl _)]

end FinalityEngine

end Rustchain.Consensus
