import Rustchain.Consensus.Deposits

/-! # Well-formed validator sets

The addresses of a well-formed set are distinct, its active members have the minimum stake, it is
not larger than allowed, and its cached total is the sum of the active stakes. `validate` does not
look for repeated or too many validators in a genesis file, and a stake transaction is checked
neither against the minimum nor against the size of the set. Where those checks would pass, every
run keeps the set well formed. -/

namespace Rustchain.Consensus

open Rustchain.Core Storage Vm Lib.Machine Lib.Maps Lib.Runs Lib.Ranking

variable {P : Primitives} {W : Wasmtime} {cfg : VmConfig} {g : GenesisConfig}

/-- The sum of the stakes with `is_active` set. -/
def activeSum (l : List ValidatorInfo) : ℕ := ((l.filter (·.isActive)).map (·.stake)).sum

/-- **A well-formed validator set.** -/
structure WellFormed (vs : ValidatorSet) : Prop where
  distinct : (vs.validators.map (·.address)).Nodup
  minimum : ∀ v ∈ vs.activeValidators, vs.minStake ≤ v.stake
  room : vs.validators.length ≤ vs.maxValidators
  total : vs.totalStake = activeSum vs.validators

/-- What `validate` does not ask of a genesis file: distinct validators, no more than allowed, and
stakes that add up to a value of `u128`. -/
structure GenesisOk (g : GenesisConfig) : Prop where
  distinct : (g.initialValidators.map (·.address)).Nodup
  room : g.initialValidators.length ≤ g.consensusParams.maxValidators
  fits : (g.initialValidators.map (·.stake)).sum < 2 ^ 128

/-- What a stake transaction is not checked for: the stake it leads to has the minimum, and there is
room for a new validator. -/
def StakeOk (vs : ValidatorSet) (stx : SignedTransaction) : Prop :=
  stx.transaction.txType = .stake →
    match vs.getValidator stx.sender with
    | some vi => vs.minStake ≤ vi.stake + stx.transaction.value
    | none => vs.minStake ≤ stx.transaction.value ∧ vs.validators.length < vs.maxValidators

/-! ### The cached total -/

/-- The cached total is the sum of the active stakes, without a wrap. -/
structure ExactTotal (vs : ValidatorSet) : Prop where
  total : vs.totalStake = activeSum vs.validators
  fits : activeSum vs.validators < 2 ^ 128

variable {vs : ValidatorSet}

theorem exactTotal_withValidators {l : List ValidatorInfo} (h : (withValidators vs l).ovf = false) :
    ExactTotal (withValidators vs l).val := by
  rw [withValidators_ovf] at h
  have hlt : activeSum l < 2 ^ 128 := Nat.lt_of_not_le (of_decide_eq_false h)
  exact ⟨Nat.mod_eq_of_lt hlt, hlt⟩

variable {stx : SignedTransaction}

theorem exactTotal_restake (h : ExactTotal vs) (hovf : (restake vs stx).ovf = false) :
    ExactTotal (restake vs stx).val := by
  have hr := restaking vs stx
  generalize restake vs stx = x at hr hovf
  cases hr with
  | idle _ _ => exact h
  | raised _ _ => exact exactTotal_withValidators (Bool.or_eq_false_iff.mp hovf).2
  | lowered _ _ _ => exact exactTotal_withValidators hovf
  | joined _ _ => exact exactTotal_withValidators hovf

theorem activeSum_genesis (g : GenesisConfig) :
    activeSum g.toValidatorInfos = (g.initialValidators.map (·.stake)).sum := by
  unfold activeSum GenesisConfig.toValidatorInfos
  rw [List.filter_eq_self.mpr fun v hv => by obtain ⟨gv, -, rfl⟩ := List.mem_map.mp hv; rfl,
    List.map_map]
  rfl

theorem exactTotal_genesis (h : (g.initialValidators.map (·.stake)).sum < 2 ^ 128) :
    ExactTotal (genesisValidatorSet g) := by
  rw [← activeSum_genesis] at h
  exact ⟨Nat.mod_eq_of_lt h, h⟩

theorem activeSum_nextValidators_le (params : ConsensusParams) (now : ℕ) (h : JailFree vs) :
    activeSum (nextValidators params now vs.validators) ≤ activeSum vs.validators := by
  have hsub : (nextValidators params now vs.validators).Subperm vs.validators := by
    have heligible : (eligible params now vs.validators).Subperm vs.validators := by
      rw [eligible, map_unjail h]
      exact List.filter_sublist.subperm
    exact (best_subperm _ _ _).trans heligible
  exact sum_map_le_of_subperm (hsub.filter _)

variable {params : ConsensusParams}

theorem exactTotal_nextSet {now : ℕ} (hj : JailFree vs) (h : ExactTotal vs) :
    ExactTotal (nextSet params now vs) := by
  have hle := activeSum_nextValidators_le params now hj
  have hlt : activeSum (nextValidators params now vs.validators) < 2 ^ 128 :=
    lt_of_le_of_lt hle h.fits
  exact ⟨Nat.mod_eq_of_lt hlt, hlt⟩

/-! ### One transaction -/

theorem mem_activeValidators {v : ValidatorInfo} :
    v ∈ vs.activeValidators ↔ v ∈ vs.validators ∧ v.isActive = true ∧ v.jailedUntil = none := by
  rw [ValidatorSet.activeValidators, List.mem_filter, Bool.and_eq_true, Option.isNone_iff_eq_none]

/-- Active records have the minimum. -/
def HasMinimum (m : ℕ) (v : ValidatorInfo) : Prop :=
  v.isActive = true → v.jailedUntil = none → m ≤ v.stake

theorem forall_active_iff {m : ℕ} :
    (∀ v ∈ vs.activeValidators, m ≤ v.stake) ↔ ∀ v ∈ vs.validators, HasMinimum m v := by
  constructor
  · intro h v hv ha hj
    exact h v (mem_activeValidators.mpr ⟨hv, ha, hj⟩)
  · intro h v hv
    obtain ⟨hm, ha, hj⟩ := mem_activeValidators.mp hv
    exact h v hm ha hj

theorem wellFormed_withValidators_iff {l : List ValidatorInfo}
    (hovf : (withValidators vs l).ovf = false) :
    WellFormed (withValidators vs l).val ↔ (l.map (·.address)).Nodup ∧
      (∀ v ∈ l, HasMinimum vs.minStake v) ∧ l.length ≤ vs.maxValidators := by
  constructor
  · intro h
    exact ⟨h.distinct, forall_active_iff.mp h.minimum, h.room⟩
  · rintro ⟨hd, hm, hr⟩
    exact ⟨hd, forall_active_iff.mpr hm, hr, (exactTotal_withValidators hovf).total⟩

/-- **One executed transaction** keeps a set well formed if and only if it would pass the checks
that are not made. -/
theorem wellFormed_restake_iff (hj : JailFree vs) (h : WellFormed vs)
    (hovf : (restake vs stx).ovf = false) :
    WellFormed (restake vs stx).val ↔ StakeOk vs stx := by
  have hnodup := nodup_restake stx h.distinct
  have hmin := forall_active_iff.mp h.minimum
  have hr := restaking vs stx
  generalize restake vs stx = x at hr hovf hnodup
  unfold StakeOk
  cases hr with
  | idle htype _ => exact ⟨fun _ ht => absurd ht htype, fun _ => h⟩
  | @raised before after vi htype hrec =>
    have hvi : vi ∈ vs.validators := by simp [hrec.split]
    have hget : vs.getValidator stx.sender = some vi := hrec.find?_eq
    obtain ⟨hadd, hset⟩ := Bool.or_eq_false_iff.mp hovf
    rw [val_bind, addU_val hadd] at hnodup
    rw [val_bind, wellFormed_withValidators_iff hset, addU_val hadd, hget]
    rw [hrec.split, List.forall_mem_append, List.forall_mem_cons] at hmin
    rw [List.forall_mem_append, List.forall_mem_cons]
    constructor
    · rintro ⟨-, ⟨-, hnew, -⟩, -⟩ _
      exact hnew rfl (hj vi hvi)
    · intro hok
      refine ⟨hnodup, ⟨hmin.1, fun _ _ => hok htype, hmin.2.2⟩, ?_⟩
      have hroom := h.room
      rw [hrec.split] at hroom
      simpa using hroom
  | @lowered before after vi htype hrec hle =>
    rw [wellFormed_withValidators_iff hovf]
    rw [hrec.split, List.forall_mem_append, List.forall_mem_cons] at hmin
    rw [List.forall_mem_append, List.forall_mem_cons]
    have hne : stx.transaction.txType ≠ .stake := by rw [htype]; decide
    refine ⟨fun _ ht => absurd ht hne, fun _ => ⟨hnodup, ⟨hmin.1, ?_, hmin.2.2⟩, ?_⟩⟩
    · intro hactive _
      by_contra hlt
      rw [if_pos (Nat.lt_of_not_le hlt)] at hactive
      cases hactive
    · have hroom := h.room
      rw [hrec.split] at hroom
      simpa using hroom
  | joined htype hnew =>
    have hget : vs.getValidator stx.sender = none :=
      List.find?_eq_none.mpr fun v hv => by simpa using hnew v hv
    rw [wellFormed_withValidators_iff hovf, hget, List.forall_mem_append, List.forall_mem_singleton,
      List.length_append, List.length_singleton]
    constructor
    · rintro ⟨-, ⟨-, hm⟩, hroom⟩ _
      exact ⟨hm rfl rfl, hroom⟩
    · intro hok
      exact ⟨hnodup, ⟨hmin, fun _ _ => (hok htype).1⟩, (hok htype).2⟩

/-! ### Runs -/

/-- Every executed transaction would pass the checks, on the set that it finds. -/
def StakesOk (vs : ValidatorSet) : List SignedTransaction → Prop
  | [] => True
  | stx :: txs => StakeOk vs stx ∧ StakesOk (restake vs stx).val txs

/-- The blocks of a run execute such transactions, without overflow. -/
def KeepsFormed (P : Primitives) (W : Wasmtime) (cfg : VmConfig) (s : ChainState Database)
    (op : ChainOp W) : Prop :=
  NoOverflow P W cfg s op ∧ StakesOk s.currentEpoch.validatorSet (executedBy P W cfg s op)

/-- What a run keeps: nobody is jailed, the set is well formed, and its total does not wrap. -/
structure FormedInv (vs : ValidatorSet) : Prop where
  jailFree : JailFree vs
  formed : WellFormed vs
  exact : ExactTotal vs

theorem Restaking.jailFree {x : Flagged ValidatorSet} (hr : Restaking vs stx x) (h : JailFree vs) :
    JailFree x.val := by
  unfold JailFree at h
  cases hr with
  | idle _ _ => exact h
  | raised _ hrec =>
    rw [hrec.split, List.forall_mem_append, List.forall_mem_cons] at h
    rw [val_bind, JailFree, withValidators_val, List.forall_mem_append, List.forall_mem_cons]
    exact h
  | lowered _ hrec _ =>
    rw [hrec.split, List.forall_mem_append, List.forall_mem_cons] at h
    rw [JailFree, withValidators_val, List.forall_mem_append, List.forall_mem_cons]
    exact h
  | joined _ _ =>
    rw [JailFree, withValidators_val, List.forall_mem_append, List.forall_mem_singleton]
    exact ⟨h, rfl⟩

theorem formedInv_restakes : ∀ {txs : List SignedTransaction} {vs : ValidatorSet},
    FormedInv vs → StakesOk vs txs → (restakes vs txs).ovf = false →
      FormedInv (restakes vs txs).val
  | [], _, h, _, _ => h
  | stx :: txs, vs, h, hok, hovf => by
    obtain ⟨hovf1, hovf2⟩ := Bool.or_eq_false_iff.mp hovf
    have hnext : FormedInv (restake vs stx).val :=
      ⟨(restaking vs stx).jailFree h.jailFree,
        (wellFormed_restake_iff h.jailFree h.formed hovf1).mpr hok.1,
        exactTotal_restake h.exact hovf1⟩
    exact @formedInv_restakes txs _ hnext hok.2 hovf2

theorem jailFree_nextSet {now : ℕ} (h : JailFree vs) : JailFree (nextSet params now vs) := by
  intro v hv
  obtain ⟨⟨w, hw, rfl⟩, -⟩ := mem_eligible.mp (mem_nextValidators hv)
  rw [unjail_of_none (h w hw)]
  exact h w hw

theorem formedInv_nextSet {now : ℕ} (h : FormedInv vs) : FormedInv (nextSet params now vs) := by
  have hexact : ExactTotal (nextSet params now vs) := exactTotal_nextSet h.jailFree h.exact
  refine ⟨jailFree_nextSet h.jailFree, ⟨nodup_nextValidators _ _ h.formed.distinct, ?_, ?_,
    hexact.total⟩, hexact⟩
  · refine forall_active_iff.mpr fun v hv _ _ => ?_
    exact (mem_eligible.mp (mem_nextValidators hv)).2
  · show (nextValidators params now vs.validators).length ≤ params.maxValidators
    rw [nextValidators_eq_best, length_best]
    exact Nat.min_le_left _ _

theorem wellFormed_genesis_iff (hv : g.validate = .ok ()) :
    WellFormed (genesisValidatorSet g) ↔ GenesisOk g := by
  have hlength : (genesisValidatorSet g).validators.length = g.initialValidators.length :=
    List.length_map ..
  have haddr : (genesisValidatorSet g).validators.map (·.address) =
      g.initialValidators.map (·.address) := List.map_map ..
  constructor
  · intro h
    refine ⟨haddr ▸ h.distinct, hlength ▸ h.room, ?_⟩
    have htotal : (genesisValidatorSet g).totalStake =
        (g.initialValidators.map (·.stake)).sum := h.total.trans (activeSum_genesis g)
    rw [← htotal]
    exact Nat.mod_lt _ (by decide)
  · intro h
    refine ⟨nodup_genesis h.distinct, ?_, hlength ▸ h.room, (exactTotal_genesis h.fits).total⟩
    exact forall_active_iff.mpr fun v hm _ _ => minStake_le_of_validate hv hm

theorem formedInv_genesis (hv : g.validate = .ok ()) (h : GenesisOk g) :
    FormedInv (genesisValidatorSet g) :=
  ⟨jailFree_genesis g, (wellFormed_genesis_iff hv).mpr h, exactTotal_genesis h.fits⟩

theorem formedInv_setStep (hv : g.validate = .ok ()) (hg : GenesisOk g) {s : ChainState Database}
    {op : ChainOp W} (h : FormedInv s.currentEpoch.validatorSet) (hG : KeepsFormed P W cfg s op)
    (hs : SetStep P W cfg g s op vs) : FormedInv vs := by
  cases hs with
  | txs hovf => exact formedInv_restakes h hG.2 (hovf hG.1)
  | epoch _ => exact formedInv_nextSet h
  | withinEpoch _ => exact h
  | stored => exact h
  | restarted => exact formedInv_genesis hv hg

/-- **Validator sets are well formed.** The first set is well formed if and only if the genesis file
has distinct validators, not too many, with stakes that add up below the wrap. An executed
transaction keeps a set well formed if and only if it would pass the checks that are not made. From
such a genesis file, along every run with such transactions, every set is well formed. -/
theorem validator_sets_wellFormed (P : Primitives) (W : Wasmtime) (cfg : VmConfig)
    (g : GenesisConfig) :
    (∀ s₀, Started P g s₀ → (WellFormed s₀.currentEpoch.validatorSet ↔ GenesisOk g)) ∧
    (∀ s stx, Reachable P W cfg g s → WellFormed s.currentEpoch.validatorSet →
      (restake s.currentEpoch.validatorSet stx).ovf = false →
      (WellFormed (restake s.currentEpoch.validatorSet stx).val ↔
        StakeOk s.currentEpoch.validatorSet stx)) ∧
    (GenesisOk g → ∀ s₀ ops s, Started P g s₀ →
      Run (ChainStep P W cfg g) (KeepsFormed P W cfg) s₀ ops s →
      WellFormed s.currentEpoch.validatorSet) := by
  refine ⟨?_, ?_, ?_⟩
  · rintro s₀ ⟨d, hd⟩
    rw [validatorSet_fromGenesis hd]
    exact wellFormed_genesis_iff (fromGenesis_ok P hd).1
  · intro s stx hs hw hovf
    exact wellFormed_restake_iff hs.inv.jailFree hw hovf
  · rintro hg s₀ ops s ⟨d, hd⟩ hrun
    have hv := (fromGenesis_ok P hd).1
    refine (hrun.invariant (I := fun s => FormedInv s.currentEpoch.validatorSet) ?_
      fun t op u ht hG hs => formedInv_setStep hv hg ht hG (setStep hs)).formed
    rw [validatorSet_fromGenesis hd]
    exact formedInv_genesis hv hg

namespace Small

theorem genesisOk : GenesisOk genesis :=
  ⟨by decide +kernel, by decide, by decide⟩

theorem deposit_joins (value : ℕ) :
    start.currentEpoch.validatorSet.getValidator (deposit value).sender = none := by
  show start.currentEpoch.validatorSet.getValidator ((KeyPair.small 2).address .small) = none
  decide +kernel

end Small

theorem large_stake_wellFormed : ∃ s,
    ChainStep .small .small .default Small.genesis Small.start (Small.applyDeposit 50) s ∧
    s.currentEpoch.validatorSet.validators.length = 2 ∧
    WellFormed s.currentEpoch.validatorSet := by
  obtain ⟨a, rs, ha, hok, hlen, hno⟩ := Small.apply_ok Small.start (Small.depositBlock 50)
    (p := fun a => a.state.currentEpoch.validatorSet.validators.length = 2 ∧ a.overflow = false)
    (by decide +kernel)
  have hstep : ChainStep .small .small .default Small.genesis Small.start
    (Small.applyDeposit 50) a.state := ⟨a, rs, ha, hok, rfl⟩
  have hexec : executedBy .small .small .default Small.start (Small.applyDeposit 50) =
      [Small.deposit 50] := by decide +kernel
  have hstakes : StakesOk Small.start.currentEpoch.validatorSet [Small.deposit 50] := by
    refine ⟨fun _ => ?_, trivial⟩
    rw [Small.deposit_joins]
    exact ⟨by decide, by decide⟩
  have hguard : KeepsFormed .small .small .default Small.start (Small.applyDeposit 50) := by
    refine ⟨fun b hb => ?_, by rwa [hexec]⟩
    obtain rfl := Option.some.inj (ha.symm.trans hb)
    exact hno
  exact ⟨a.state, hstep, hlen, (validator_sets_wellFormed .small .small .default
    Small.genesis).2.2 Small.genesisOk _ _ _ Small.started (Run.nil.snoc hguard hstep)⟩

/-- Half of the minimum makes an active validator. -/
theorem small_stake_activates : ∃ s, Reachable .small .small .default Small.genesis s ∧
    (∃ v ∈ s.currentEpoch.validatorSet.activeValidators,
      v.stake < s.currentEpoch.validatorSet.minStake) ∧
    ¬ WellFormed s.currentEpoch.validatorSet := by
  obtain ⟨a, rs, ha, hok, v, hv, hlt⟩ := Small.apply_ok Small.start (Small.depositBlock 5)
    (p := fun a => ∃ v ∈ a.state.currentEpoch.validatorSet.activeValidators,
      v.stake < a.state.currentEpoch.validatorSet.minStake) (by decide +kernel)
  refine ⟨a.state, Small.reachable_apply Small.reachable_start ha hok, ⟨v, hv, hlt⟩, fun h => ?_⟩
  exact absurd (h.minimum v hv) (Nat.not_le.mpr hlt)

end Rustchain.Consensus
