import Rustchain.Consensus.Contracts
import Rustchain.Consensus.Node
import Rustchain.Lib.Ranking

/-! # Stakes and validator sets

What the transactions of a block do to the validator set in memory. Only an executed stake or
unstake touches it, and what it does depends on the set and the transaction alone (`restake`), so
the set after a block is a fold over the executed transactions. The epoch transition keeps the
validators with enough stake, the largest stakes first and not too many of them. -/

namespace Rustchain.Consensus

open Rustchain.Core Storage Vm Lib.Machine Lib.Maps Lib.Partial Lib.Runs Lib.Ranking

variable {P : Primitives} {W : Wasmtime} {cfg : VmConfig} {g : GenesisConfig}

/-! ### What executed transactions do to the set -/

/-- **What an executed transaction does to the validator set.** -/
def restake (vs : ValidatorSet) (stx : SignedTransaction) : Flagged ValidatorSet :=
  match stx.transaction.txType with
  | .stake => stakeSet vs stx
  | .unstake => unstakeSet vs stx
  | _ => pure vs

/-- What a list of executed transactions does to it. -/
def restakes (vs : ValidatorSet) (txs : List SignedTransaction) : Flagged ValidatorSet :=
  txs.foldlM restake vs

theorem restakes_cons (vs : ValidatorSet) (stx : SignedTransaction) (txs : List SignedTransaction) :
    restakes vs (stx :: txs) = restake vs stx >>= fun vs => restakes vs txs := rfl

theorem restakes_append (txs' : List SignedTransaction) :
    ∀ (txs : List SignedTransaction) (vs : ValidatorSet), restakes vs (txs ++ txs') =
      restakes vs txs >>= fun vs => restakes vs txs'
  | [], _ => Flagged.ext rfl (Bool.false_or _).symm
  | stx :: txs, vs => by
    have ih := restakes_append txs' txs (restake vs stx).val
    rw [List.cons_append, restakes_cons, restakes_cons]
    refine Flagged.ext ?_ ?_
    · rw [val_bind, ih]
      rfl
    · rw [ovf_bind, ih]
      exact (Bool.or_assoc ..).symm

variable {stx : SignedTransaction} {vs : ValidatorSet}

theorem restake_of_noStaking
    (h : stx.transaction.txType ≠ .stake ∧ stx.transaction.txType ≠ .unstake) :
    restake vs stx = pure vs := by
  unfold restake
  cases ht : stx.transaction.txType with
  | stake => exact absurd ht h.1
  | unstake => exact absurd ht h.2
  | transfer => rfl
  | contractDeploy => rfl
  | contractCall => rfl

theorem restakes_of_noStaking : ∀ {txs : List SignedTransaction},
    (∀ stx ∈ txs, stx.transaction.txType ≠ .stake ∧ stx.transaction.txType ≠ .unstake) →
      restakes vs txs = pure vs
  | [], _ => rfl
  | stx :: txs, h => by
    have hrest : restakes vs txs = pure vs := restakes_of_noStaking fun t ht => h t (by simp [ht])
    rw [restakes_cons, restake_of_noStaking (h stx (by simp))]
    exact Flagged.ext (congrArg Flagged.val hrest) (congrArg Flagged.ovf hrest)

/-! ### The set after a block -/

namespace Exec

/-- The loop has the validator set that a computation gives, and its flag if it overflowed. -/
def HasSet {M : Type} (l : Loop M Database) (x : Flagged ValidatorSet) : Prop :=
  l.validatorSet = x.val ∧ (l.overflow = false → x.ovf = false)

theorem executeType_set {ord : HashOrders} {block : Block} {stx : SignedTransaction}
    {x x' : Account} {o : Outcome} {l l' : Loop W.Module Database}
    (h : executeType P W cfg ord block stx x l = some ((x', o), l')) :
    HasSet l' (restake l.validatorSet stx) := by
  unfold executeType at h
  unfold restake
  cases ht : stx.transaction.txType with
  | transfer =>
    rw [ht] at h
    obtain ⟨tb, b, ov, -, rfl, -⟩ := executeTransfer_spec h
    exact ⟨rfl, fun _ => rfl⟩
  | contractDeploy =>
    rw [ht] at h
    cases deployRun_of_eq_some P W cfg ord h with
    | refused => exact ⟨rfl, fun _ => rfl⟩
    | done _ hflush hrefund =>
      obtain ⟨b, ov, -, rfl, -⟩ := refundGas_spec hrefund
      exact ⟨(flushed_of_flush hflush).validatorSet, fun _ => rfl⟩
  | contractCall =>
    rw [ht] at h
    cases callRun_of_eq_some P W cfg ord h with
    | noCode => exact ⟨rfl, fun _ => rfl⟩
    | refused => exact ⟨rfl, fun _ => rfl⟩
    | failed _ _ _ hrefund =>
      obtain ⟨b, ov, -, rfl, -⟩ := refundGas_spec hrefund
      exact ⟨rfl, fun _ => rfl⟩
    | done _ _ _ hflush hrefund =>
      obtain ⟨b, ov, -, rfl, -⟩ := refundGas_spec hrefund
      exact ⟨(flushed_of_flush hflush).validatorSet, fun _ => rfl⟩
  | stake =>
    rw [ht] at h
    obtain ⟨-, vi, hrefund⟩ := executeStake_run h
    obtain ⟨b, ov, -, rfl, hov⟩ := refundGas_spec hrefund
    exact ⟨rfl, fun hf => (Bool.or_eq_false_iff.mp (hov hf).1).2⟩
  | unstake =>
    rw [ht] at h
    cases unstakeRun_of_eq_some h with
    | refused hshort hrefund =>
      obtain ⟨b, ov, -, rfl, -⟩ := refundGas_spec hrefund
      dsimp only
      rw [unstakeSet_of_lt hshort]
      exact ⟨rfl, fun _ => rfl⟩
    | done _ _ hrefund =>
      obtain ⟨b, ov, -, rfl, hov⟩ := refundGas_spec hrefund
      refine ⟨rfl, fun hf => ?_⟩
      exact (Bool.or_eq_false_iff.mp (Bool.or_eq_false_iff.mp (hov hf).1).1).2

theorem executeTx_set {ord : HashOrders} {block : Block} {i : ℕ} {stx : SignedTransaction}
    {l l' : Loop W.Module Database} (h : executeTx P W cfg ord block i stx l = some ((), l')) :
    HasSet l' (restakes l.validatorSet (if Passes l stx then [stx] else [])) := by
  by_cases hp : Passes l stx
  · obtain ⟨x, o, l1, ht, rfl⟩ := executeTx_run P W cfg ord hp h
    obtain ⟨hset, hovf⟩ := executeType_set ht
    rw [if_pos hp]
    refine ⟨hset, fun hf => ?_⟩
    have h1 : l1.overflow = false := (Bool.or_eq_false_iff.mp hf).1
    rw [restakes_cons, ovf_bind, Bool.or_eq_false_iff]
    exact ⟨hovf h1, rfl⟩
  · obtain ⟨msg, ov, hs⟩ := executeTx_skip P W cfg ord block i hp
    rw [hs] at h
    obtain ⟨-, rfl⟩ := some_pair_inj h
    rw [if_neg hp]
    exact ⟨rfl, fun _ => rfl⟩

theorem validatorSet_executeTxs {ord : ℕ → HashOrders} {block : Block} :
    ∀ {txs : List SignedTransaction} {i : ℕ} {l l' : Loop W.Module Database},
      executeTxs P W cfg ord block i txs l = some ((), l') →
        HasSet l' (restakes l.validatorSet (executed P W cfg ord block i txs l))
  | [], i, l, l', h => by
    obtain ⟨-, rfl⟩ := pure_eq_some h
    exact ⟨rfl, fun _ => rfl⟩
  | stx :: txs, i, l, l', h => by
    unfold executeTxs at h
    obtain ⟨_, l1, h1, h2⟩ := bind_eq_some.mp h
    obtain ⟨hset1, hovf1⟩ := executeTx_set h1
    obtain ⟨hset2, hovf2⟩ := validatorSet_executeTxs h2
    unfold executed
    rw [h1]
    rw [restakes_append, HasSet, val_bind, ovf_bind, ← hset1]
    refine ⟨hset2, fun hf => Bool.or_eq_false_iff.mpr ⟨?_, hovf2 hf⟩⟩
    exact hovf1 ((executeTxs_effect h2).overflow hf)

end Exec

/-! ### Records -/

/-- The first record of an address in a list, with what stands before and after it. -/
structure FirstRecord (l : List ValidatorInfo) (a : Address) (before : List ValidatorInfo)
    (vi : ValidatorInfo) (after : List ValidatorInfo) : Prop where
  split : l = before ++ vi :: after
  address : vi.address = a
  first : ∀ v ∈ before, v.address ≠ a

theorem FirstRecord.find?_eq {l before after : List ValidatorInfo} {a : Address}
    {vi : ValidatorInfo} (h : FirstRecord l a before vi after) :
    l.find? (fun v => decide (v.address = a)) = some vi := by
  rw [h.split, List.find?_append, List.find?_eq_none.mpr fun v hv => by simpa using h.first v hv]
  simp [h.address]

theorem exists_firstRecord {a : Address} {vi : ValidatorInfo} (h : vs.getValidator a = some vi) :
    ∃ before after,
      FirstRecord vs.validators a before vi after := by
  obtain ⟨haddr, before, after, hsplit, hfirst⟩ := List.find?_eq_some_iff_append.mp h
  refine ⟨before, after, hsplit, of_decide_eq_true haddr, fun v hv => ?_⟩
  simpa using hfirst v hv

theorem modifyFirst_append {α : Type} {p : α → Bool} {f : α → α} {l' : List α} :
    ∀ {l : List α}, (∀ x ∈ l, p x = false) → modifyFirst p f (l ++ l') = l ++ modifyFirst p f l'
  | [], _ => rfl
  | x :: l, h => by
    have hx : p x = false := h x (by simp)
    rw [List.cons_append, modifyFirst, if_neg (by simp [hx]),
      modifyFirst_append fun y hy => h y (by simp [hy]), List.cons_append]

theorem FirstRecord.modifyFirst_eq {l before after : List ValidatorInfo} {a : Address}
    {vi : ValidatorInfo} (h : FirstRecord l a before vi after) (f : ValidatorInfo → ValidatorInfo) :
    modifyFirst (fun v => decide (v.address = a)) f l = before ++ f vi :: after := by
  rw [h.split, modifyFirst_append fun v hv => decide_eq_false (h.first v hv), modifyFirst,
    if_pos (decide_eq_true h.address)]

/-- The set with another list of validators, and its total computed from it. -/
def withValidators (vs : ValidatorSet) (l : List ValidatorInfo) : Flagged ValidatorSet :=
  { vs with validators := l }.recalculateTotalStake

@[simp] theorem withValidators_val (vs : ValidatorSet) (l : List ValidatorInfo) :
    (withValidators vs l).val = { vs with validators := l, totalStake := (activeStakeSum l).val } :=
  rfl

theorem withValidators_ovf (vs : ValidatorSet) (l : List ValidatorInfo) :
    (withValidators vs l).ovf = (activeStakeSum l).ovf := Bool.or_false _

/-- **What an executed transaction can do to the validator set**: nothing, if it is none of the two
staking types or an unstake of more than there is; raise the first record of its sender; lower it;
or add a record at the end. -/
inductive Restaking (vs : ValidatorSet) (stx : SignedTransaction) : Flagged ValidatorSet → Prop
  | idle (htype : stx.transaction.txType ≠ .stake)
      (hshort : stx.transaction.txType = .unstake →
        ∀ vi, vs.getValidator stx.sender = some vi → vi.stake < stx.transaction.value) :
      Restaking vs stx (pure vs)
  | raised {before after : List ValidatorInfo} {vi : ValidatorInfo}
      (htype : stx.transaction.txType = .stake)
      (hrec : FirstRecord vs.validators stx.sender before vi after) :
      Restaking vs stx (addU 128 vi.stake stx.transaction.value >>= fun stake =>
        withValidators vs (before ++ { vi with stake, isActive := true } :: after))
  | lowered {before after : List ValidatorInfo} {vi : ValidatorInfo}
      (htype : stx.transaction.txType = .unstake)
      (hrec : FirstRecord vs.validators stx.sender before vi after)
      (hle : stx.transaction.value ≤ vi.stake) :
      Restaking vs stx (withValidators vs (before ++
        { vi with
          stake := vi.stake - stx.transaction.value
          isActive := if vi.stake - stx.transaction.value < vs.minStake then false
            else vi.isActive } :: after))
  | joined (htype : stx.transaction.txType = .stake)
      (hnew : ∀ v ∈ vs.validators, v.address ≠ stx.sender) :
      Restaking vs stx (withValidators vs (vs.validators ++
        [ValidatorInfo.new stx.sender stx.publicKey stx.transaction.value]))

theorem restaking_stakeSet (htype : stx.transaction.txType = .stake) :
    Restaking vs stx (stakeSet vs stx) := by
  unfold stakeSet
  cases hv : vs.getValidator stx.sender with
  | some vi =>
    obtain ⟨before, after, hrec⟩ := exists_firstRecord hv
    dsimp only
    unfold ValidatorSet.modifyValidator
    simp only [hrec.modifyFirst_eq]
    exact .raised htype hrec
  | none =>
    refine .joined htype fun v hm => ?_
    simpa using List.find?_eq_none.mp hv v hm

theorem restaking_unstakeSet (htype : stx.transaction.txType = .unstake) :
    Restaking vs stx (unstakeSet vs stx) := by
  have hne : stx.transaction.txType ≠ .stake := by rw [htype]; decide
  unfold unstakeSet
  cases hv : vs.getValidator stx.sender with
  | some vi =>
    dsimp only
    split_ifs with hlt
    · refine .idle hne fun _ w hw => ?_
      rw [hv] at hw
      exact Option.some.inj hw ▸ hlt
    · obtain ⟨before, after, hrec⟩ := exists_firstRecord hv
      unfold ValidatorSet.modifyValidator
      simp only [hrec.modifyFirst_eq]
      rw [subU_of_le (by omega)]
      convert Restaking.lowered htype hrec (by omega) using 1
      exact Flagged.ext rfl (Bool.false_or _)
  | none =>
    refine .idle hne fun _ w hw => ?_
    rw [hv] at hw
    cases hw

theorem restaking (vs : ValidatorSet) (stx : SignedTransaction) :
    Restaking vs stx (restake vs stx) := by
  unfold restake
  cases ht : stx.transaction.txType with
  | stake => exact restaking_stakeSet ht
  | unstake => exact restaking_unstakeSet ht
  | transfer => exact .idle (by rw [ht]; decide) (by simp [ht])
  | contractDeploy => exact .idle (by rw [ht]; decide) (by simp [ht])
  | contractCall => exact .idle (by rw [ht]; decide) (by simp [ht])

/-! ### Addresses -/

theorem Restaking.addresses {x : Flagged ValidatorSet} (h : Restaking vs stx x) :
    x.val.validators.map (·.address) = vs.validators.map (·.address) ∨
      stx.sender ∉ vs.validators.map (·.address) ∧
        x.val.validators.map (·.address) = vs.validators.map (·.address) ++ [stx.sender] := by
  cases h with
  | idle => exact .inl rfl
  | raised _ hrec =>
    left
    rw [val_bind, withValidators_val, hrec.split]
    simp
  | lowered _ hrec _ =>
    left
    rw [withValidators_val, hrec.split]
    simp
  | joined _ hnew =>
    right
    refine ⟨fun hm => ?_, by simp [ValidatorInfo.new]⟩
    obtain ⟨v, hv, heq⟩ := List.mem_map.mp hm
    exact hnew v hv heq

theorem nodup_restake (stx : SignedTransaction) (h : (vs.validators.map (·.address)).Nodup) :
    ((restake vs stx).val.validators.map (·.address)).Nodup := by
  rcases (restaking vs stx).addresses with heq | ⟨hnew, heq⟩
  · rwa [heq]
  · rw [heq]
    exact h.append (List.nodup_singleton _) (by simpa using hnew)

theorem nodup_restakes : ∀ {txs : List SignedTransaction} {vs : ValidatorSet},
    (vs.validators.map (·.address)).Nodup →
      ((restakes vs txs).val.validators.map (·.address)).Nodup
  | [], _, h => h
  | stx :: txs, vs, h => @nodup_restakes txs (restake vs stx).val (nodup_restake stx h)

theorem nodup_genesis (h : (g.initialValidators.map (·.address)).Nodup) :
    ((genesisValidatorSet g).validators.map (·.address)).Nodup := by
  show (g.toValidatorInfos.map (·.address)).Nodup
  rwa [GenesisConfig.toValidatorInfos, List.map_map]

/-! ### The epoch transition -/

variable {params : ConsensusParams}

@[simp] theorem unjail_address (params : ConsensusParams) (now : ℕ) (v : ValidatorInfo) :
    (unjail params now v).address = v.address := by
  unfold unjail
  cases v.jailedUntil with
  | none => rfl
  | some t => dsimp only; split_ifs <;> rfl

@[simp] theorem unjail_stake (params : ConsensusParams) (now : ℕ) (v : ValidatorInfo) :
    (unjail params now v).stake = v.stake := by
  unfold unjail
  cases v.jailedUntil with
  | none => rfl
  | some t => dsimp only; split_ifs <;> rfl

theorem map_unjail {now : ℕ} (h : JailFree vs) :
    vs.validators.map (unjail params now) = vs.validators :=
  (List.map_congr_left fun v hv => unjail_of_none (h v hv)).trans (List.map_id _)

theorem minStake_le_of_validate (h : g.validate = .ok ()) {v : ValidatorInfo}
    (hv : v ∈ g.toValidatorInfos) : g.consensusParams.minStake ≤ v.stake := by
  obtain ⟨gv, hgv, rfl⟩ := List.mem_map.mp hv
  exact (GenesisConfig.validate_ok.mp h).2.2.1 gv hgv

/-- The validators that have the minimum, before the cut. -/
def eligible (params : ConsensusParams) (now : ℕ) (l : List ValidatorInfo) : List ValidatorInfo :=
  (l.map (unjail params now)).filter fun v => decide (params.minStake ≤ v.stake)

theorem nextValidators_eq_best (params : ConsensusParams) (now : ℕ) (l : List ValidatorInfo) :
    nextValidators params now l = best (·.stake) params.maxValidators (eligible params now l) := rfl

variable {l : List ValidatorInfo}

theorem mem_eligible {now : ℕ} {v : ValidatorInfo} : v ∈ eligible params now l ↔
      (∃ w ∈ l, unjail params now w = v) ∧ params.minStake ≤ v.stake := by
  rw [eligible, List.mem_filter, List.mem_map, decide_eq_true_eq]

theorem mem_nextValidators {now : ℕ} {v : ValidatorInfo} (h : v ∈ nextValidators params now l) :
    v ∈ eligible params now l :=
  mem_of_mem_best h

theorem nodup_eligible {now : ℕ} (h : (l.map (·.address)).Nodup) :
    ((eligible params now l).map (·.address)).Nodup := by
  have hsub : ((eligible params now l).map (·.address)).Sublist
      ((l.map (unjail params now)).map (·.address)) := List.filter_sublist.map _
  refine hsub.nodup ?_
  simpa [List.map_map, Function.comp_def] using h

theorem nodup_nextValidators (params : ConsensusParams) (now : ℕ) (h : (l.map (·.address)).Nodup) :
    ((nextValidators params now l).map (·.address)).Nodup :=
  nodup_map_best (nodup_eligible h)

/-! ### The set along a run -/

def nextSet (params : ConsensusParams) (now : ℕ) (vs : ValidatorSet) : ValidatorSet :=
  .new (nextValidators params now vs.validators) params.minStake params.maxValidators

/-- **What an operation of a node can do to the validator set in memory.** -/
inductive SetStep (P : Primitives) (W : Wasmtime) (cfg : VmConfig) (g : GenesisConfig)
    (s : ChainState Database) : ChainOp W → ValidatorSet → Prop
  | txs {ord : ℕ → HashOrders} {cache : HashMap Blake3Hash W.Module} {block : Block}
      (hovf : NoOverflow P W cfg s (.applyBlock ord cache block) →
        (restakes s.currentEpoch.validatorSet
          (executedBy P W cfg s (.applyBlock ord cache block))).ovf = false) :
      SetStep P W cfg g s (.applyBlock ord cache block)
        (restakes s.currentEpoch.validatorSet
          (executedBy P W cfg s (.applyBlock ord cache block))).val
  | epoch {params : ConsensusParams} {now : ℕ} (hend : s.height = s.currentEpoch.endBlock) :
      SetStep P W cfg g s (.advanceEpoch params now)
        (nextSet params now s.currentEpoch.validatorSet)
  | withinEpoch {params : ConsensusParams} {now : ℕ} (hend : s.height ≠ s.currentEpoch.endBlock) :
      SetStep P W cfg g s (.advanceEpoch params now) s.currentEpoch.validatorSet
  | stored {v : ValidatorInfo} : SetStep P W cfg g s (.putValidator v) s.currentEpoch.validatorSet
  | restarted : SetStep P W cfg g s .restart (genesisValidatorSet g)

variable {s : ChainState Database}

theorem validatorSet_fromGenesis {d d' : Database} (h : fromGenesis P g d = (.ok (some s), d')) :
    s.currentEpoch.validatorSet = genesisValidatorSet g := by
  obtain ⟨-, b, -, ⟨-, rfl⟩ | ⟨-, head, e, -, he, rfl⟩⟩ := fromGenesis_ok P h
  · rfl
  · unfold reloadedEpoch at he
    dsimp only at he
    split_ifs at he
    obtain rfl := Option.some.inj he
    rfl

theorem setStep {s s' : ChainState Database} {op : ChainOp W}
    (hs : ChainStep P W cfg g s op s') :
    SetStep P W cfg g s op s'.currentEpoch.validatorSet := by
  cases op with
  | applyBlock ord cache block =>
    obtain ⟨a, rs, ha, hok, rfl⟩ := hs
    obtain ⟨-, -, l, hl, rfl⟩ := applyBlock_ok ha hok
    obtain ⟨hset, hovf⟩ := Exec.validatorSet_executeTxs hl
    show SetStep P W cfg g s _ l.validatorSet
    rw [hset]
    exact .txs fun hno => hovf (hno _ ha)
  | advanceEpoch params now =>
    obtain rfl := hs
    rw [maybeAdvanceEpoch_eq]
    split_ifs with hend
    · exact .epoch hend
    · exact .withinEpoch hend
  | putValidator v =>
    obtain rfl := hs
    exact .stored
  | restart =>
    obtain ⟨d, hd⟩ := hs
    rw [validatorSet_fromGenesis hd]
    exact .restarted

theorem nodup_setStep {op : ChainOp W} (hg : (g.initialValidators.map (·.address)).Nodup)
    (h : (s.currentEpoch.validatorSet.validators.map (·.address)).Nodup)
    (hs : SetStep P W cfg g s op vs) : (vs.validators.map (·.address)).Nodup := by
  cases hs with
  | txs _ => exact nodup_restakes h
  | epoch _ => exact nodup_nextValidators _ _ h
  | withinEpoch _ => exact h
  | stored => exact h
  | restarted => exact nodup_genesis hg

theorem Reachable.nodup (h : Reachable P W cfg g s)
    (hg : (g.initialValidators.map (·.address)).Nodup) :
    (s.currentEpoch.validatorSet.validators.map (·.address)).Nodup := by
  obtain ⟨s₀, ops, ⟨d, hd⟩, hrun⟩ := h
  refine hrun.invariant (I := fun s =>
    (s.currentEpoch.validatorSet.validators.map (·.address)).Nodup) ?_ fun t op u ht _ hs =>
      nodup_setStep hg ht (setStep hs)
  rw [validatorSet_fromGenesis hd]
  exact nodup_genesis hg

end Rustchain.Consensus
