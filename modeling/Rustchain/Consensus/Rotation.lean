import Rustchain.Consensus.ValidatorSets

/-! # The rotation of the validators

At the last block of an epoch the validators are released from jail where their time has passed,
those without the minimum stake are dropped, and the largest stakes are kept, in order, with ties in
their old order. The cached total of the new set is a sum in `u128`, and a genesis file may hold
stakes that wrap it. -/

namespace Rustchain.Consensus

open Rustchain.Core Storage Vm Lib.Machine Lib.Ranking

variable {P : Primitives} {W : Wasmtime} {cfg : VmConfig} {g : GenesisConfig}

/-- What the transition does to one record: nothing, or a release whose time has come. -/
structure Released (now : ℕ) (v v' : ValidatorInfo) : Prop where
  others : v' = { v with jailedUntil := v'.jailedUntil, isActive := v'.isActive }
  free : v.jailedUntil = none → v' = v
  released : ∀ untl, v.jailedUntil = some untl → (v'.jailedUntil = none ↔ untl ≤ now)
  jailed : ∀ untl, v.jailedUntil = some untl → now < untl → v' = v

variable (params : ConsensusParams) (now : ℕ) (l : List ValidatorInfo)

theorem released_unjail (v : ValidatorInfo) : Released now v (unjail params now v) := by
  unfold unjail
  cases hj : v.jailedUntil with
  | none => exact ⟨rfl, fun _ => rfl, fun _ h => (by cases hj.symm.trans h), fun _ _ _ => rfl⟩
  | some untl =>
    dsimp only
    by_cases hle : untl ≤ now
    · rw [if_pos hle]
      refine ⟨rfl, fun h => (by cases hj.symm.trans h), fun u hu => ?_, fun u hu hlt => ?_⟩
      · obtain rfl := Option.some.inj (hj.symm.trans hu)
        exact ⟨fun _ => hle, fun _ => rfl⟩
      · obtain rfl := Option.some.inj (hj.symm.trans hu)
        omega
    · rw [if_neg hle]
      refine ⟨rfl, fun _ => rfl, fun u hu => ?_, fun _ _ _ => rfl⟩
      obtain rfl := Option.some.inj (hj.symm.trans hu)
      exact ⟨fun h => (by cases hj.symm.trans h), fun h => absurd h hle⟩

/-- **A rotation** of the list `old` to the list `new`; `updated` are the old records after the
releases. -/
structure Rotation (params : ConsensusParams) (now : ℕ) (old updated new : List ValidatorInfo) :
    Prop where
  updates : List.Forall₂ (Released now) old updated
  sorted : new.Pairwise fun a b => b.stake ≤ a.stake
  size : new.length =
    min params.maxValidators (old.countP fun v => decide (params.minStake ≤ v.stake))
  cut : ∃ left, (new ++ left).Perm (updated.filter fun v => decide (params.minStake ≤ v.stake)) ∧
    ∀ a ∈ new, ∀ b ∈ left, b.stake ≤ a.stake
  ties : ∀ stake, new.filter (fun v => decide (v.stake = stake)) <+:
    (updated.filter fun v => decide (params.minStake ≤ v.stake)).filter
      fun v => decide (v.stake = stake)

theorem length_eligible :
    (eligible params now l).length = l.countP fun v => decide (params.minStake ≤ v.stake) := by
  rw [eligible, ← List.countP_eq_length_filter, List.countP_map]
  simp [Function.comp_def]

theorem rotation_nextValidators :
    Rotation params now l (l.map (unjail params now)) (nextValidators params now l) where
  updates := by
    rw [List.forall₂_map_right_iff, List.forall₂_same]
    exact fun v _ => released_unjail params now v
  sorted := pairwise_best _ _ _
  size := by rw [nextValidators_eq_best, length_best, length_eligible]
  cut := exists_best_append_perm _ _ _
  ties := filter_weight_best_initial _ _ _

theorem sum_activeValidators {vs : ValidatorSet} (h : JailFree vs) :
    (vs.activeValidators.map (·.stake)).sum = activeSum vs.validators := by
  have hfilter : vs.activeValidators = vs.validators.filter (·.isActive) := by
    refine List.filter_congr fun v hv => ?_
    rw [h v hv]
    simp
  rw [hfilter, activeSum]

theorem totalStake_nextSet_iff {params : ConsensusParams} {now : ℕ} {vs : ValidatorSet}
    (h : JailFree vs) :
    (nextSet params now vs).totalStake =
        ((nextSet params now vs).activeValidators.map (·.stake)).sum ↔
      ((nextSet params now vs).activeValidators.map (·.stake)).sum < 2 ^ 128 := by
  rw [sum_activeValidators (jailFree_nextSet h)]
  have htotal : (nextSet params now vs).totalStake =
      activeSum (nextSet params now vs).validators % 2 ^ 128 := rfl
  rw [htotal]
  exact ⟨fun he => he ▸ Nat.mod_lt _ (by decide), fun hlt => Nat.mod_eq_of_lt hlt⟩

theorem maybeAdvanceEpoch_last {s : ChainState Database}
    (hend : s.height = s.currentEpoch.endBlock) :
    (maybeAdvanceEpoch params now s).val = (.ok (some (nextEpoch params now s).val), { s with
      currentEpoch := (nextEpoch params now s).val
      storage := s.storage.putEpoch (nextEpoch params now s).val }) := by
  unfold maybeAdvanceEpoch EpochInfo.isLastBlock
  rw [if_neg (by simp [hend])]
  rfl

/-- **The epoch rotation.** Off the last block of the epoch the call returns `None` and changes
nothing. At the last block the new list is a rotation of the old one, at any clock reading. In a
reachable state the new cached total is the sum of the active stakes if and only if that sum fits
into `u128`. -/
theorem epoch_rotation_iff (P : Primitives) (W : Wasmtime) (cfg : VmConfig) (g : GenesisConfig)
    (params : ConsensusParams) (now : ℕ) (s : ChainState Database) :
    (s.height ≠ s.currentEpoch.endBlock →
      (maybeAdvanceEpoch params now s).val = (.ok none, s)) ∧
    (s.height = s.currentEpoch.endBlock → ∃ e s' updated,
      (maybeAdvanceEpoch params now s).val = (.ok (some e), s') ∧ s'.currentEpoch = e ∧
      Rotation params now s.currentEpoch.validatorSet.validators updated
        e.validatorSet.validators ∧
      (Reachable P W cfg g s →
        (e.validatorSet.totalStake = (e.validatorSet.activeValidators.map (·.stake)).sum ↔
          (e.validatorSet.activeValidators.map (·.stake)).sum < 2 ^ 128))) := by
  refine ⟨fun hoff => ?_, fun hend => ?_⟩
  · unfold maybeAdvanceEpoch EpochInfo.isLastBlock
    rw [if_pos (by simp [hoff])]
  · exact ⟨_, _, _, maybeAdvanceEpoch_last params now hend, rfl, rotation_nextValidators _ _ _,
      fun hs => totalStake_nextSet_iff hs.inv.jailFree⟩

namespace Small

def twins (stake : ℕ) : GenesisConfig :=
  { genesis with
    initialValidators :=
      [⟨(KeyPair.small 1).address .small, (KeyPair.small 1).publicKey .small, stake⟩,
        ⟨(KeyPair.small 2).address .small, (KeyPair.small 2).publicKey .small, stake⟩]
    consensusParams := { genesis.consensusParams with epochLength := 2 } }

def twinsStart (stake : ℕ) : ChainState Database :=
  ⟨genesisBlock, 0, firstEpoch (twins stake), initialized .small (twins stake) genesisBlock .empty⟩

theorem twinsStarted {stake : ℕ} (h : (twins stake).validate = .ok ()) :
    Started .small (twins stake) (twinsStart stake) :=
  ⟨_, fromGenesis_fresh .small h rfl rfl⟩

theorem reachable_twins {stake : ℕ} (h : (twins stake).validate = .ok ()) {block : Block}
    {a : Applied Small.Module Database} {rs : List TransactionReceipt}
    (ha : apply (twinsStart stake) block = some a) (hok : a.result = .ok rs) :
    Reachable .small .small .default (twins stake) a.state := by
  have hstep : ChainStep .small .small .default (twins stake) (twinsStart stake)
    (.applyBlock (fun _ => .listed) ∅ block) a.state := ⟨a, rs, ha, hok, rfl⟩
  exact ⟨_, _, twinsStarted h, Lib.Runs.Run.nil.snoc trivial hstep⟩

end Small

/-- Nothing happens before the first block; after it the epoch ends, with the total of both. -/
theorem rotation_after_one_block :
    (maybeAdvanceEpoch (Small.twins 100).consensusParams 0 (Small.twinsStart 100)).val =
      (.ok none, Small.twinsStart 100) ∧
    ∃ s e s', Reachable .small .small .default (Small.twins 100) s ∧
      (maybeAdvanceEpoch (Small.twins 100).consensusParams 0 s).val = (.ok (some e), s') ∧
      e.validatorSet.totalStake = (e.validatorSet.activeValidators.map (·.stake)).sum := by
  obtain ⟨a, rs, ha, hok, hend, hp⟩ := Small.apply_ok (Small.twinsStart 100)
    (Small.next Small.genesisBlock [])
    (p := fun a => a.state.height = a.state.currentEpoch.endBlock ∧
      ((nextEpoch (Small.twins 100).consensusParams 0 a.state).val.validatorSet.activeValidators.map
        (·.stake)).sum < 2 ^ 128) (by decide +kernel)
  have hr := Small.reachable_twins (by decide +kernel) ha hok
  obtain ⟨e, s', updated, hval, -, -, htotal⟩ := (epoch_rotation_iff .small .small .default
    (Small.twins 100) (Small.twins 100).consensusParams 0 a.state).2 hend
  rw [maybeAdvanceEpoch_last _ _ hend] at hval
  cases hval
  exact ⟨(epoch_rotation_iff .small .small .default (Small.twins 100)
    (Small.twins 100).consensusParams 0 (Small.twinsStart 100)).1 (by decide),
    a.state, _, _, hr, maybeAdvanceEpoch_last _ _ hend, (htotal hr).mpr hp⟩

/-- With half of the range of `u128` each, the next set has two active validators and the total
zero. -/
theorem rotation_total_wraps : (Small.twins (2 ^ 127)).validate = .ok () ∧ ∃ s e s',
    Reachable .small .small .default (Small.twins (2 ^ 127)) s ∧
    s.height = s.currentEpoch.endBlock ∧
    (maybeAdvanceEpoch (Small.twins (2 ^ 127)).consensusParams 0 s).val = (.ok (some e), s') ∧
    e.validatorSet.totalStake = 0 ∧
    (e.validatorSet.activeValidators.map (·.stake)).sum = 2 ^ 128 := by
  obtain ⟨a, rs, ha, hok, hend, hp⟩ := Small.apply_ok (Small.twinsStart (2 ^ 127))
    (Small.next Small.genesisBlock [])
    (p := fun a => a.state.height = a.state.currentEpoch.endBlock ∧
      (nextEpoch (Small.twins (2 ^ 127)).consensusParams 0
        a.state).val.validatorSet.totalStake = 0 ∧
      ((nextEpoch (Small.twins (2 ^ 127)).consensusParams 0
        a.state).val.validatorSet.activeValidators.map (·.stake)).sum = 2 ^ 128)
    (by decide +kernel)
  exact ⟨by decide +kernel, a.state, _, _, Small.reachable_twins (by decide +kernel) ha hok, hend,
    maybeAdvanceEpoch_last _ _ hend, hp⟩

end Rustchain.Consensus
