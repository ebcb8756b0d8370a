import Rustchain.Consensus.Staking

/-! # Restarting a node

A restart reads the head and the height from the database, computes the epoch from the height alone
and takes the validators from the genesis file. It gives the state of the live node exactly where
the live epoch is the one of the height (the live node is one epoch ahead after the last block of an
epoch) and the live validator set is still the one of the genesis file. -/

namespace Rustchain.Consensus

open Rustchain.Core Storage Vm Lib.Machine Lib.Maps Lib.Partial Lib.Runs

variable {P : Primitives} {W : Wasmtime} {cfg : VmConfig} {g : GenesisConfig}

abbrev epochLength (g : GenesisConfig) : ℕ := g.consensusParams.epochLength

/-- The bounds of epoch `k`, as live node and restart compute them. -/
def epochAt (g : GenesisConfig) (k : ℕ) (vs : ValidatorSet) : EpochInfo :=
  ⟨k, k * epochLength g, (subU 64 (addU 64 (k * epochLength g) (epochLength g)).val 1).val, vs,
    none⟩

/-- The number of the epoch in which a live node is at a height. -/
def liveEpoch (g : GenesisConfig) (h : ℕ) : ℕ :=
  if epochLength g ≤ 1 then 0 else (h + 1) / epochLength g

/-- What the live state and its database know of each other. -/
structure Stored (P : Primitives) (g : GenesisConfig) (s : ChainState Database) : Prop where
  valid : g.validate = .ok ()
  genesis : ∃ b, g.toGenesisBlock = some b ∧ s.storage.genesisHash = some (b.hash P)
  height : s.storage.chainHeight = some s.height
  head : s.storage.blocks.lookup s.height = some s.head

/-! ### The restart -/

variable {s : ChainState Database}

theorem fromGenesis_stored (h : Stored P g s) :
    (fromGenesis P g s.storage).1 =
      .ok ((reloadedEpoch g s.height).map fun e => { s with currentEpoch := e }) := by
  obtain ⟨b, hb, hg⟩ := h.genesis
  unfold fromGenesis
  simp only [h.valid, hb, run_loadOrInit, hg]
  rw [if_neg (not_not.mpr rfl), run_reload]
  have hh : s.storage.chainHeight.getD 0 = s.height := by rw [h.height]; rfl
  rw [hh, h.head]
  cases reloadedEpoch g s.height <;> rfl

theorem fromGenesis_eq_live_iff (h : Stored P g s) :
    (fromGenesis P g s.storage).1 = .ok (some s) ↔
      reloadedEpoch g s.height = some s.currentEpoch := by
  rw [fromGenesis_stored h]
  cases he : reloadedEpoch g s.height with
  | none => simp
  | some e =>
    constructor
    · intro heq
      have hs : { s with currentEpoch := e } = s := Option.some.inj (Except.ok.inj heq)
      rw [← hs]
    · intro heq
      obtain rfl := Option.some.inj heq
      rfl

theorem reloadedEpoch_eq {h : ℕ} (hL : 0 < epochLength g) (hh : h < 2 ^ 64) :
    reloadedEpoch g h = some (epochAt g (h / epochLength g) (genesisValidatorSet g)) := by
  have hle : h / epochLength g * epochLength g ≤ h := Nat.div_mul_le_self _ _
  have hstart : (mulU 64 (h / epochLength g) (epochLength g)).val =
      h / epochLength g * epochLength g := Nat.mod_eq_of_lt (lt_of_le_of_lt hle hh)
  unfold reloadedEpoch epochAt
  dsimp only
  rw [if_neg (Nat.ne_of_gt hL), hstart]

/-! ### The live node -/

theorem stored_first {d d' : Database} (hd : d.genesisHash = none)
    (h : fromGenesis P g d = (.ok (some s), d')) : Stored P g s := by
  obtain ⟨hv, b, hb, ⟨-, rfl⟩ | ⟨hg, -⟩⟩ := fromGenesis_ok P h
  · have hnum : b.header.number = 0 := by
      obtain ⟨v, -, rfl⟩ := Option.map_eq_some_iff.mp hb
      rfl
    refine ⟨hv, ⟨b, hb, genesisHash_initialized P g b _⟩, ?_, ?_⟩
    · exact field_initialized P (f := Database.chainHeight) (fun _ _ => rfl) (fun _ _ => rfl)
        (fun _ _ => rfl) g b _
    · show (initialized P g b _).blocks.lookup 0 = some b
      rw [field_initialized P (f := Database.blocks) (fun _ _ => rfl) (fun _ _ => rfl)
        (fun _ _ => rfl) g b _, ← hnum]
      exact Finmap.lookup_insert _
  · rw [hd] at hg
    cases hg

theorem stored_start (h : Started P g s) : Stored P g s := by
  obtain ⟨d, hd⟩ := h
  exact stored_first rfl hd

theorem stored_maybeAdvanceEpoch (h : Stored P g s) (params : ConsensusParams) (now : ℕ) :
    Stored P g (maybeAdvanceEpoch params now s).val.2 := by
  rw [maybeAdvanceEpoch_eq]
  split_ifs
  · exact ⟨h.valid, h.genesis, h.height, h.head⟩
  · exact h

theorem stored_chainStep {s s' : ChainState Database} {op : ChainOp W} (h : Stored P g s)
    (hs : ChainStep P W cfg g s op s') : Stored P g s' := by
  cases op with
  | applyBlock ord cache block =>
    obtain ⟨a, rs, ha, hok, rfl⟩ := hs
    obtain ⟨-, -, l, hl, rfl⟩ := applyBlock_ok ha hok
    refine ⟨h.valid, ?_, rfl, Finmap.lookup_insert _⟩
    obtain ⟨b, hb, hg⟩ := h.genesis
    refine ⟨b, hb, ?_⟩
    show l.storage.genesisHash = _
    rw [(Exec.executeTxs_effect hl).chain]
    exact hg
  | advanceEpoch params now =>
    obtain rfl := hs
    exact stored_maybeAdvanceEpoch h params now
  | putValidator v =>
    obtain rfl := hs
    exact ⟨h.valid, h.genesis, h.height, h.head⟩
  | restart =>
    obtain ⟨d, hd⟩ := hs
    have hres := congrArg Prod.fst hd
    rw [fromGenesis_stored h] at hres
    obtain ⟨e, -, rfl⟩ := Option.map_eq_some_iff.mp (Except.ok.inj hres)
    exact ⟨h.valid, h.genesis, h.height, h.head⟩

theorem stored_step {s s' : ChainState Database} {i : EngineInput W} (h : Stored P g s)
    (hs : EngineStep P W cfg g g.consensusParams s i s') : Stored P g s' := by
  obtain ⟨t, happly, hadvance⟩ := hs
  exact stored_chainStep (stored_chainStep h happly) hadvance

/-- The epoch of a live node, up to its validators, and its height. -/
structure Live (g : GenesisConfig) (n : ℕ) (s : ChainState Database) : Prop where
  height : s.height = n
  epoch : s.currentEpoch = epochAt g (liveEpoch g n) s.currentEpoch.validatorSet

theorem live_start (h : Started P g s) (hL : 0 < epochLength g) (hlt : epochLength g < 2 ^ 64) :
    Live g 0 s := by
  obtain ⟨d, hd⟩ := h
  obtain ⟨hv, b, hb, ⟨-, rfl⟩ | ⟨hg, -⟩⟩ := fromGenesis_ok P hd
  · refine ⟨rfl, ?_⟩
    have hzero : liveEpoch g 0 = 0 := by
      unfold liveEpoch
      split_ifs with h1
      · rfl
      · exact Nat.div_eq_of_lt (by omega)
    have hadd : (addU 64 0 (epochLength g)).val = epochLength g := by
      rw [addU, Nat.zero_add]
      exact Nat.mod_eq_of_lt hlt
    show firstEpoch g = epochAt g _ _
    unfold firstEpoch epochAt
    rw [hzero, Nat.zero_mul, hadd]
  · cases hg

theorem eq_epochEnd_iff {a len m : ℕ} (h0 : 0 < len) (hlen : len < 2 ^ 64) (ha : a ≤ m)
    (hm : m + 1 < 2 ^ 64) : m = (subU 64 (addU 64 a len).val 1).val ↔ m + 1 = a + len := by
  have hadd : (addU 64 a len).val = (a + len) % 2 ^ 64 := rfl
  rw [hadd, subU]
  by_cases h1 : 1 ≤ (a + len) % 2 ^ 64
  · rw [if_pos h1]
    dsimp only
    omega
  · rw [if_neg h1]
    dsimp only
    omega

theorem nextEpoch_eq {params : ConsensusParams} {now k : ℕ} (hparams : params = g.consensusParams)
    (hk : s.currentEpoch.epochNumber = k) (hh : s.height + 1 = (k + 1) * epochLength g)
    (h0 : 0 < epochLength g) (hlt : s.height + 1 < 2 ^ 64) :
    (nextEpoch params now s).val = epochAt g (k + 1) (nextEpoch params now s).val.validatorSet := by
  have hkl : k + 1 ≤ (k + 1) * epochLength g := Nat.le_mul_of_pos_right _ h0
  have hnum : (addU 64 k 1).val = k + 1 := Nat.mod_eq_of_lt (by omega)
  have hstart : (addU 64 s.height 1).val = (k + 1) * epochLength g := by
    rw [← hh]
    exact Nat.mod_eq_of_lt hlt
  unfold nextEpoch epochAt
  simp only [val_bind, hk, hnum, hstart, hparams]
  rfl

theorem liveEpoch_succ {n : ℕ} (h1 : 1 < epochLength g) :
    liveEpoch g n * epochLength g ≤ n + 1 ∧
      liveEpoch g (n + 1) = if n + 2 = liveEpoch g n * epochLength g + epochLength g then
        liveEpoch g n + 1 else liveEpoch g n := by
  unfold liveEpoch
  rw [if_neg (by omega), if_neg (by omega)]
  set len := epochLength g
  have hle : (n + 1) / len * len ≤ n + 1 := Nat.div_mul_le_self _ _
  have hlt : n + 1 < (n + 1) / len * len + len := Nat.lt_div_mul_add (by omega)
  refine ⟨hle, ?_⟩
  split_ifs with h
  · rw [h, ← Nat.succ_mul, Nat.mul_div_cancel _ (by omega)]
  · exact Nat.div_eq_of_lt_le (by omega) (by rw [Nat.succ_mul]; omega)

theorem live_maybeAdvanceEpoch {n now : ℕ} (h0 : 0 < epochLength g) (hlt : epochLength g < 2 ^ 64)
    (hn : n + 2 < 2 ^ 64) (hh : s.height = n + 1)
    (he : s.currentEpoch = epochAt g (liveEpoch g n) s.currentEpoch.validatorSet) :
    Live g (n + 1) (maybeAdvanceEpoch g.consensusParams now s).val.2 := by
  have hend : s.currentEpoch.endBlock =
      (subU 64 (addU 64 (liveEpoch g n * epochLength g) (epochLength g)).val 1).val := by
    rw [he]
    rfl
  have hnum : s.currentEpoch.epochNumber = liveEpoch g n := by rw [he]; rfl
  rw [maybeAdvanceEpoch_eq]
  by_cases h1 : epochLength g ≤ 1
  · -- epochs of one block: the first one ends with the genesis block, and no other begins
    have hz : ∀ m, liveEpoch g m = 0 := fun m => if_pos h1
    have hlast : ¬ s.height = s.currentEpoch.endBlock := by
      rw [hend, hh, hz, Nat.zero_mul, eq_epochEnd_iff h0 hlt (Nat.zero_le _) (by omega)]
      omega
    rw [if_neg hlast]
    exact ⟨hh, by rw [hz] at he ⊢; exact he⟩
  · obtain ⟨hle, hsucc⟩ := liveEpoch_succ (g := g) (n := n) (by omega)
    have hlast : s.height = s.currentEpoch.endBlock ↔
        n + 2 = liveEpoch g n * epochLength g + epochLength g := by
      rw [hend, hh, eq_epochEnd_iff h0 hlt hle (by omega)]
    by_cases hl : n + 2 = liveEpoch g n * epochLength g + epochLength g
    · rw [if_pos (hlast.mpr hl)]
      refine ⟨hh, ?_⟩
      rw [hsucc, if_pos hl]
      refine nextEpoch_eq rfl hnum ?_ h0 (by omega)
      rw [hh, Nat.succ_mul]
      omega
    · rw [if_neg (hlast.not.mpr hl)]
      exact ⟨hh, by rw [hsucc, if_neg hl]; exact he⟩

theorem live_step {n : ℕ} {s s' : ChainState Database} {i : EngineInput W}
    (h0 : 0 < epochLength g) (hlt : epochLength g < 2 ^ 64) (hn : n + 2 < 2 ^ 64)
    (h : Live g n s) (hs : EngineStep P W cfg g g.consensusParams s i s') : Live g (n + 1) s' := by
  obtain ⟨t, ⟨a, rs, ha, hok, rfl⟩, rfl⟩ := hs
  obtain ⟨-, hnum, l, hl, rfl⟩ := applyBlock_ok ha hok
  refine live_maybeAdvanceEpoch h0 hlt hn ?_ ?_
  · show i.block.header.number = n + 1
    rw [hnum, h.height]
    exact Nat.mod_eq_of_lt (by omega)
  · show { s.currentEpoch with validatorSet := l.validatorSet } = epochAt g _ l.validatorSet
    rw [h.epoch]
    rfl

theorem live_of_run {s₀ s : ChainState Database} {inputs : List (EngineInput W)}
    (hL : 0 < epochLength g) (hlen : epochLength g < 2 ^ 64) (h0 : Started P g s₀)
    (hrun : Run (EngineStep P W cfg g g.consensusParams) Free s₀ inputs s)
    (hlt : inputs.length + 1 < 2 ^ 64) : Live g inputs.length s := by
  refine hrun.history (I := fun l s => l.length + 1 < 2 ^ 64 → Live g l.length s)
    (fun _ => live_start h0 hL hlen) (fun l t i u ht _ hs hn => ?_) hlt
  rw [List.length_append, List.length_singleton] at hn ⊢
  exact live_step hL hlen hn (ht (by omega)) hs

theorem div_eq_liveEpoch_iff (h0 : 0 < epochLength g) (n : ℕ) :
    n / epochLength g = liveEpoch g n ↔ n = 0 ∨ ¬ epochLength g ∣ n + 1 := by
  unfold liveEpoch
  split_ifs with h1
  · have hone : epochLength g = 1 := by omega
    rw [hone, Nat.div_one]
    simp
  · rw [Nat.succ_div]
    constructor
    · intro h
      refine .inr fun hd => ?_
      rw [if_pos hd] at h
      omega
    · intro h
      have hd : ¬ epochLength g ∣ n + 1 := by
        rcases h with rfl | h
        · rw [Nat.zero_add, Nat.dvd_one]
          omega
        · exact h
      rw [if_neg hd, Nat.add_zero]

/-! ### Runs that do not touch the validators -/

/-- The genesis file lists its validators by falling stake and no more of them than there may be. -/
def Ranked (g : GenesisConfig) : Prop :=
  g.toValidatorInfos.Pairwise (fun a b => b.stake ≤ a.stake) ∧
    g.initialValidators.length ≤ g.consensusParams.maxValidators

/-- The block executes no stake and no unstake. -/
def NoStaking (P : Primitives) (W : Wasmtime) (cfg : VmConfig) (s : ChainState Database)
    (i : EngineInput W) : Prop :=
  ∀ stx ∈ Exec.executed P W cfg i.ord i.block 0 i.block.transactions (s.toLoop i.cache),
    stx.transaction.txType ≠ .stake ∧ stx.transaction.txType ≠ .unstake

theorem nextValidators_genesis (hv : g.validate = .ok ()) (hr : Ranked g) (now : ℕ) :
    nextValidators g.consensusParams now g.toValidatorInfos = g.toValidatorInfos := by
  have hun : g.toValidatorInfos.map (unjail g.consensusParams now) = g.toValidatorInfos :=
    map_unjail (jailFree_genesis g)
  have hfilter : g.toValidatorInfos.filter
      (fun v => decide (g.consensusParams.minStake ≤ v.stake)) = g.toValidatorInfos := by
    refine List.filter_eq_self.mpr fun v hm => decide_eq_true ?_
    exact minStake_le_of_validate hv hm
  have hsort : g.toValidatorInfos.insertionSort (fun a b => b.stake ≤ a.stake) =
      g.toValidatorInfos := List.Pairwise.insertionSort_eq hr.1
  unfold nextValidators
  rw [hun, hfilter, hsort]
  refine List.take_of_length_le ?_
  show (g.initialValidators.map _).length ≤ _
  rw [List.length_map]
  exact hr.2

theorem validatorSet_noStaking {s₀ s : ChainState Database} {inputs : List (EngineInput W)}
    (h0 : Started P g s₀) (hr : Ranked g)
    (hrun : Run (EngineStep P W cfg g g.consensusParams) (NoStaking P W cfg) s₀ inputs s) :
    s.currentEpoch.validatorSet = genesisValidatorSet g := by
  have hv := (stored_start h0).valid
  refine hrun.invariant (I := fun s => s.currentEpoch.validatorSet = genesisValidatorSet g) ?_ ?_
  · obtain ⟨d, hd⟩ := h0
    obtain ⟨-, b, -, ⟨-, rfl⟩ | ⟨hg, -⟩⟩ := fromGenesis_ok P hd
    · rfl
    · cases hg
  · rintro s i s' hs hq ⟨t, ⟨a, rs, ha, hok, rfl⟩, rfl⟩
    obtain ⟨-, -, l, hl, rfl⟩ := applyBlock_ok ha hok
    have hset : l.validatorSet = genesisValidatorSet g := by
      rw [(Exec.validatorSet_executeTxs hl).1, restakes_of_noStaking hq]
      exact hs
    rw [maybeAdvanceEpoch_eq]
    split_ifs
    · show ValidatorSet.new (nextValidators g.consensusParams i.now l.validatorSet.validators)
        _ _ = _
      rw [hset]
      show ValidatorSet.new (nextValidators g.consensusParams i.now g.toValidatorInfos) _ _ = _
      rw [nextValidators_genesis hv hr]
      rfl
    · exact hset

/-! ### Restart and live node -/

theorem epochAt_inj {k k' : ℕ} {vs vs' : ValidatorSet} :
    epochAt g k vs = epochAt g k' vs' ↔ k = k' ∧ vs = vs' := by
  constructor
  · intro h
    exact ⟨congrArg EpochInfo.epochNumber h, congrArg EpochInfo.validatorSet h⟩
  · rintro ⟨rfl, rfl⟩
    rfl

/-- **Restart and live node**: after every run of blocks, a restart from the same genesis file gives
the state of the live node if and only if the epoch length is not zero, the height is zero or not
that of the last block of an epoch, and the live validator set is the one of the genesis file. It is
so after every run that executes no stake and no unstake, if the genesis file ranks its validators.
-/
theorem restart_eq_live_iff (P : Primitives) (W : Wasmtime) (cfg : VmConfig) {g : GenesisConfig}
    (hlen : epochLength g < 2 ^ 64) {s₀ s : ChainState Database} {inputs : List (EngineInput W)}
    (h0 : Started P g s₀) (hrun : Run (EngineStep P W cfg g g.consensusParams) Free s₀ inputs s)
    (hlt : inputs.length + 1 < 2 ^ 64) :
    ((fromGenesis P g s.storage).1 = .ok (some s) ↔
      0 < epochLength g ∧ (s.height = 0 ∨ ¬ epochLength g ∣ s.height + 1) ∧
        s.currentEpoch.validatorSet = genesisValidatorSet g) ∧
    (Ranked g → Run (EngineStep P W cfg g g.consensusParams) (NoStaking P W cfg) s₀ inputs s →
      s.currentEpoch.validatorSet = genesisValidatorSet g) := by
  refine ⟨?_, fun hr hq => validatorSet_noStaking h0 hr hq⟩
  have hstored : Stored P g s :=
    hrun.invariant (stored_start h0) fun _ _ _ h _ hs => stored_step h hs
  rw [fromGenesis_eq_live_iff hstored]
  by_cases hL : 0 < epochLength g
  · have hl : Live g inputs.length s := live_of_run hL hlen h0 hrun hlt
    have he := hl.epoch
    generalize s.currentEpoch.validatorSet = vs at he ⊢
    rw [hl.height, reloadedEpoch_eq hL (by omega), Option.some_inj, he, epochAt_inj,
      div_eq_liveEpoch_iff hL, eq_comm (b := vs)]
    simp only [hL, true_and]
  · have hnone : reloadedEpoch g s.height = none := if_pos (Nat.eq_zero_of_not_pos hL)
    simp [hnone, hL]

/-! ### Two runs of the small chain -/

namespace Small

def advanced (a : Applied Small.Module Database) : ChainState Database :=
  (maybeAdvanceEpoch genesis.consensusParams 0 a.state).val.2

theorem run_advanced {block : Block} {a : Applied Small.Module Database}
    {rs : List TransactionReceipt} (ha : apply start block = some a) (hok : a.result = .ok rs) :
    Run (EngineStep .small .small .default genesis genesis.consensusParams) Free start
      ([] ++ [input block])
      (advanced a) :=
  .snoc .nil trivial ⟨a.state, ⟨a, rs, ha, hok, rfl⟩, rfl⟩

def blockOf (txType : TxType) (value : ℕ) : Block :=
  next genesisBlock [tx 2 0 txType (some ((KeyPair.small 3).address .small)) value []]

def restartedValidators (s : ChainState Database) : List ValidatorInfo :=
  match (fromGenesis .small genesis s.storage).1 with
  | .ok (some t) => t.currentEpoch.validatorSet.validators
  | _ => []

end Small

/-- After a block with a transfer, a restart gives the live state. -/
theorem restart_after_transfer : ∃ a rs,
    Small.apply Small.start (Small.blockOf .transfer 7) = some a ∧ a.result = .ok rs ∧
    (fromGenesis .small Small.genesis (Small.advanced a).storage).1 =
      .ok (some (Small.advanced a)) := by
  obtain ⟨a, rs, ha, hok, hh, hvs⟩ := Small.apply_ok Small.start (Small.blockOf .transfer 7)
    (p := fun a => (Small.advanced a).height = 1 ∧
      (Small.advanced a).currentEpoch.validatorSet = genesisValidatorSet Small.genesis)
    (by decide +kernel)
  have hiff := (restart_eq_live_iff .small .small .default (by decide) Small.started
    (Small.run_advanced ha hok) (by decide)).1
  exact ⟨a, rs, ha, hok, hiff.mpr ⟨by decide, .inr (by rw [hh]; decide), hvs⟩⟩

/-- After a block with a stake, a restart forgets the new validator. -/
theorem restart_forgets_stake : ∃ s inputs, Started .small Small.genesis Small.start ∧
    Run (EngineStep .small .small .default Small.genesis Small.genesis.consensusParams) Free
      Small.start inputs s ∧
    s.currentEpoch.validatorSet.validators.length = 2 ∧
    (Small.restartedValidators s).length = 1 ∧
    (fromGenesis .small Small.genesis s.storage).1 ≠ .ok (some s) := by
  obtain ⟨a, rs, ha, hok, h2, h1⟩ := Small.apply_ok Small.start (Small.blockOf .stake 50)
    (p := fun a => (Small.advanced a).currentEpoch.validatorSet.validators.length = 2 ∧
      (Small.restartedValidators (Small.advanced a)).length = 1) (by decide +kernel)
  refine ⟨Small.advanced a, _, Small.started, Small.run_advanced ha hok, h2, h1, fun heq => ?_⟩
  unfold Small.restartedValidators at h1
  rw [heq] at h1
  dsimp only at h1
  omega

end Rustchain.Consensus
