import Rustchain.Consensus.Staking

/-! # Deposits

The record of a validator is the only trace of the tokens its owner deposited: an unstake takes them
from the first record of the sender. The epoch transition builds the next list of records from this
one and leaves records out, those below the minimum and those behind the cut, and with a record goes
the deposit. Where no record with a deposit is left out, the records add up along every run. -/

namespace Rustchain.Consensus

open Rustchain.Core Storage Vm Lib.Machine Lib.Maps Lib.Runs Lib.Ranking

variable {P : Primitives} {W : Wasmtime} {cfg : VmConfig} {g : GenesisConfig}

/-- The stake in the first record of an address. -/
def stakeIn (l : List ValidatorInfo) (a : Address) : ℕ :=
  ((l.find? fun v => decide (v.address = a)).map (·.stake)).getD 0

/-- What an address can take out with unstakes. -/
def withdrawable (vs : ValidatorSet) (a : Address) : ℕ := stakeIn vs.validators a

theorem withdrawable_eq (vs : ValidatorSet) (a : Address) :
    withdrawable vs a = ((vs.getValidator a).map (·.stake)).getD 0 := rfl

/-- What an executed transaction deposits for an address. -/
def deposited (stx : SignedTransaction) (a : Address) : ℕ :=
  if stx.transaction.txType = .stake ∧ stx.sender = a then stx.transaction.value else 0

/-- What an executed transaction takes out for an address: an unstake of more than there is fails.
-/
def withdrawn (vs : ValidatorSet) (stx : SignedTransaction) (a : Address) : ℕ :=
  if stx.transaction.txType = .unstake ∧ stx.sender = a ∧
    stx.transaction.value ≤ withdrawable vs a then stx.transaction.value else 0

/-! ### One transaction -/

variable {l before after : List ValidatorInfo}

theorem FirstRecord.stakeIn_eq {a : Address} {vi : ValidatorInfo}
    (h : FirstRecord l a before vi after) : stakeIn l a = vi.stake := by
  rw [stakeIn, h.find?_eq]
  rfl

theorem FirstRecord.replace {a : Address} {vi : ValidatorInfo} (h : FirstRecord l a before vi after)
    {w : ValidatorInfo} (hw : w.address = a) :
    FirstRecord (before ++ w :: after) a before w after :=
  ⟨rfl, hw, h.first⟩

theorem stakeIn_append {l l' : List ValidatorInfo} {a : Address} (h : ∀ v ∈ l, v.address ≠ a) :
    stakeIn (l ++ l') a = stakeIn l' a := by
  rw [stakeIn, List.find?_append, List.find?_eq_none.mpr fun v hv => by simpa using h v hv]
  rfl

theorem FirstRecord.stakeIn_ne {a b : Address} {vi : ValidatorInfo}
    (h : FirstRecord l a before vi after) {w : ValidatorInfo} (hw : w.address = a) (hb : b ≠ a) :
    stakeIn (before ++ w :: after) b = stakeIn l b := by
  have hwb : decide (w.address = b) = false := decide_eq_false (by rw [hw]; exact hb.symm)
  have hvb : decide (vi.address = b) = false := decide_eq_false (by rw [h.address]; exact hb.symm)
  rw [h.split, stakeIn, stakeIn, List.find?_append, List.find?_append, List.find?_cons,
    List.find?_cons, hwb, hvb]

variable {stx : SignedTransaction} {vs : ValidatorSet}

theorem withdrawable_raised {before after : List ValidatorInfo} {vi w : ValidatorInfo}
    (htype : stx.transaction.txType = .stake)
    (hrec : FirstRecord vs.validators stx.sender before vi after) (hw : w.address = vi.address)
    (hstake : w.stake = vi.stake + stx.transaction.value) (a : Address) :
    stakeIn (before ++ w :: after) a + withdrawn vs stx a =
      withdrawable vs a + deposited stx a := by
  have hno : withdrawn vs stx a = 0 := if_neg (by simp [htype])
  rw [hno]
  by_cases ha : stx.sender = a
  · subst ha
    have hd : deposited stx stx.sender = stx.transaction.value := if_pos ⟨htype, rfl⟩
    rw [(hrec.replace (hw.trans hrec.address)).stakeIn_eq, withdrawable, hrec.stakeIn_eq, hd,
      hstake]
    rfl
  · have hd : deposited stx a = 0 := if_neg (by simp [ha])
    rw [hrec.stakeIn_ne (hw.trans hrec.address) (Ne.symm ha), hd]
    rfl

theorem withdrawable_lowered {before after : List ValidatorInfo} {vi w : ValidatorInfo}
    (htype : stx.transaction.txType = .unstake)
    (hrec : FirstRecord vs.validators stx.sender before vi after)
    (hle : stx.transaction.value ≤ vi.stake) (hw : w.address = vi.address)
    (hstake : w.stake = vi.stake - stx.transaction.value) (a : Address) :
    stakeIn (before ++ w :: after) a + withdrawn vs stx a =
      withdrawable vs a + deposited stx a := by
  have hno : deposited stx a = 0 := if_neg (by simp [htype])
  rw [hno]
  by_cases ha : stx.sender = a
  · subst ha
    have hwithd : withdrawn vs stx stx.sender = stx.transaction.value :=
      if_pos ⟨htype, rfl, by rwa [withdrawable, hrec.stakeIn_eq]⟩
    rw [(hrec.replace (hw.trans hrec.address)).stakeIn_eq, withdrawable, hrec.stakeIn_eq, hwithd,
      hstake]
    omega
  · have hwithd : withdrawn vs stx a = 0 := if_neg (by simp [ha])
    rw [hrec.stakeIn_ne (hw.trans hrec.address) (Ne.symm ha), hwithd]
    rfl

theorem withdrawn_idle
    (hshort : stx.transaction.txType = .unstake → ∀ vi, vs.getValidator stx.sender =
      some vi → vi.stake < stx.transaction.value)
    (a : Address) : withdrawn vs stx a = 0 := by
  unfold withdrawn
  split_ifs with h
  · obtain ⟨htype, rfl, hle⟩ := h
    cases hv : vs.getValidator stx.sender with
    | some vi =>
      have hlt := hshort htype vi hv
      rw [withdrawable_eq, hv] at hle
      exact absurd hlt (Nat.not_lt.mpr hle)
    | none =>
      rw [withdrawable_eq, hv] at hle
      exact Nat.le_zero.mp hle
  · rfl

/-- **The balance of one transaction**: what can be taken out afterwards and what was taken out is
what could be taken out before and what was put in. -/
theorem withdrawable_restake (hovf : (restake vs stx).ovf = false) (a : Address) :
    withdrawable (restake vs stx).val a + withdrawn vs stx a =
      withdrawable vs a + deposited stx a := by
  have hr := restaking vs stx
  generalize restake vs stx = x at hr hovf
  cases hr with
  | idle htype hshort =>
    have hd : deposited stx a = 0 := if_neg (by simp [htype])
    rw [withdrawn_idle hshort, hd]
    rfl
  | @raised before after vi htype hrec =>
    have hadd := (Bool.or_eq_false_iff.mp hovf).1
    have hsum : (addU 128 vi.stake stx.transaction.value).val =
        vi.stake + stx.transaction.value := addU_val hadd
    rw [val_bind, hsum, withdrawable, withValidators_val]
    dsimp only
    apply withdrawable_raised htype hrec
    · rfl
    · rfl
  | @lowered before after vi htype hrec hle =>
    rw [withdrawable, withValidators_val]
    dsimp only
    apply withdrawable_lowered htype hrec hle
    · rfl
    · rfl
  | joined htype hnew =>
    have hno : withdrawn vs stx a = 0 := if_neg (by simp [htype])
    rw [hno]
    by_cases ha : stx.sender = a
    · subst ha
      have hd : deposited stx stx.sender = stx.transaction.value := if_pos ⟨htype, rfl⟩
      have hzero : withdrawable vs stx.sender = 0 := by
        rw [withdrawable, ← List.append_nil vs.validators, stakeIn_append hnew]
        rfl
      rw [withdrawable, withValidators_val, stakeIn_append hnew, hzero, hd]
      simp [stakeIn, ValidatorInfo.new]
    · have hd : deposited stx a = 0 := if_neg (by simp [ha])
      rw [hd, withdrawable, withdrawable, withValidators_val, stakeIn, stakeIn, List.find?_append]
      simp [ValidatorInfo.new, ha]

/-! ### The transactions of a block -/

/-- What executed transactions deposit for an address. -/
def depositedIn (txs : List SignedTransaction) (a : Address) : ℕ :=
  (txs.map (deposited · a)).sum

/-- What they take out, each from the set that it finds. -/
def withdrawnIn (vs : ValidatorSet) : List SignedTransaction → Address → ℕ
  | [], _ => 0
  | stx :: txs, a => withdrawn vs stx a + withdrawnIn (restake vs stx).val txs a

theorem withdrawable_restakes : ∀ {txs : List SignedTransaction} {vs : ValidatorSet},
    (restakes vs txs).ovf = false → ∀ a, withdrawable (restakes vs txs).val a +
      withdrawnIn vs txs a = withdrawable vs a + depositedIn txs a
  | [], _, _, _ => rfl
  | stx :: txs, vs, hovf, a => by
    obtain ⟨h1, h2⟩ := Bool.or_eq_false_iff.mp hovf
    have hstep := withdrawable_restake h1 a
    have hrest := withdrawable_restakes h2 a
    rw [restakes_cons, val_bind]
    show _ + (withdrawn vs stx a + withdrawnIn (restake vs stx).val txs a) =
      _ + (deposited stx a + depositedIn txs a)
    omega

/-! ### The epoch transition -/

/-- Every record with a deposit has the minimum, and there is room for all of them. -/
structure AllKept (params : ConsensusParams) (l : List ValidatorInfo) : Prop where
  minimum : ∀ v ∈ l, 0 < v.stake → params.minStake ≤ v.stake
  room : l.countP (fun v => decide (0 < v.stake)) ≤ params.maxValidators

instance (params : ConsensusParams) (l : List ValidatorInfo) : Decidable (AllKept params l) :=
  decidable_of_iff (_ ∧ _) ⟨fun h => ⟨h.1, h.2⟩, fun h => ⟨h.minimum, h.room⟩⟩

theorem stakeIn_of_mem {l : List ValidatorInfo} {v : ValidatorInfo}
    (hn : (l.map (·.address)).Nodup) (hv : v ∈ l) : stakeIn l v.address = v.stake := by
  rw [stakeIn, (find?_eq_some_of_nodup hn).mpr ⟨hv, rfl⟩]
  rfl

theorem stakeIn_of_notMem {l : List ValidatorInfo} {a : Address} (h : a ∉ l.map (·.address)) :
    stakeIn l a = 0 := by
  rw [stakeIn, find?_eq_none_of_key.mpr h]
  rfl

section
variable {params : ConsensusParams} {now : ℕ} {l : List ValidatorInfo}

theorem stakeIn_nextValidators (hn : (l.map (·.address)).Nodup) {v : ValidatorInfo} (hv : v ∈ l) :
    stakeIn (nextValidators params now l) v.address =
      if unjail params now v ∈ nextValidators params now l then v.stake else 0 := by
  split_ifs with hkept
  · have h := stakeIn_of_mem (nodup_nextValidators params now hn) hkept
    rwa [unjail_address, unjail_stake] at h
  · refine stakeIn_of_notMem fun hm => hkept ?_
    obtain ⟨w, hw, haddr⟩ := List.mem_map.mp hm
    obtain ⟨⟨v', hv', rfl⟩, -⟩ := mem_eligible.mp (mem_nextValidators hw)
    rw [unjail_address] at haddr
    rwa [← List.inj_on_of_nodup_map hn hv' hv haddr]

theorem mem_nextValidators_of_allKept (hk : AllKept params l) {v : ValidatorInfo} (hv : v ∈ l)
    (hpos : 0 < v.stake) : unjail params now v ∈ nextValidators params now l := by
  have hcount : (eligible params now l).countP (fun v => decide (0 < v.stake)) ≤
      params.maxValidators := by
    refine le_trans ?_ hk.room
    refine le_trans (List.filter_sublist.countP_le) ?_
    rw [List.countP_map]
    refine le_of_eq (congrArg (List.countP · l) (funext fun w => ?_))
    simp
  refine mem_best_of_countP_le (p := fun v => decide (0 < v.stake)) ?_ hcount ?_ ?_
  · intro a b hab ha
    have := of_decide_eq_true ha
    exact decide_eq_true (by omega)
  · exact mem_eligible.mpr ⟨⟨v, hv, rfl⟩, by rw [unjail_stake]; exact hk.minimum v hv hpos⟩
  · rw [unjail_stake]
    exact decide_eq_true hpos

/-- **The epoch transition** keeps what every address can take out if and only if every record with
a deposit has the minimum and there is room for all of them. -/
theorem stakeIn_nextValidators_iff (now : ℕ) (hn : (l.map (·.address)).Nodup) :
    (∀ a, stakeIn (nextValidators params now l) a = stakeIn l a) ↔ AllKept params l := by
  constructor
  · intro h
    have hkept : ∀ v ∈ l, 0 < v.stake → unjail params now v ∈ nextValidators params now l := by
      intro v hv hpos
      have hsame := h v.address
      rw [stakeIn_nextValidators hn hv, stakeIn_of_mem hn hv] at hsame
      split_ifs at hsame with hmem
      · exact hmem
      · omega
    refine ⟨fun v hv hpos => ?_, ?_⟩
    · have hmin := (mem_eligible.mp (mem_nextValidators (hkept v hv hpos))).2
      rwa [unjail_stake] at hmin
    · have hsub : (l.filter fun v => decide (0 < v.stake)).map (·.address) ⊆
          (nextValidators params now l).map (·.address) := by
        intro a ha
        obtain ⟨v, hv, rfl⟩ := List.mem_map.mp ha
        obtain ⟨hv, hpos⟩ := List.mem_filter.mp hv
        have hmem := List.mem_map_of_mem (f := (·.address)) (hkept v hv (of_decide_eq_true hpos))
        rwa [unjail_address] at hmem
      have hlen := ((hn.sublist (List.filter_sublist.map _)).subperm hsub).length_le
      rw [List.length_map, List.length_map, nextValidators_eq_best, length_best] at hlen
      rw [List.countP_eq_length_filter]
      omega
  · intro hk a
    by_cases ha : a ∈ l.map (·.address)
    · obtain ⟨v, hv, rfl⟩ := List.mem_map.mp ha
      rw [stakeIn_nextValidators hn hv, stakeIn_of_mem hn hv]
      split_ifs with hmem
      · rfl
      · by_contra hne
        exact hmem (mem_nextValidators_of_allKept hk hv (by omega))
    · rw [stakeIn_of_notMem ha]
      refine stakeIn_of_notMem fun hm => ha ?_
      obtain ⟨w, hw, rfl⟩ := List.mem_map.mp hm
      obtain ⟨⟨v, hv, rfl⟩, -⟩ := mem_eligible.mp (mem_nextValidators hw)
      rw [unjail_address]
      exact List.mem_map_of_mem hv

end

/-! ### Runs -/

/-- A chain state with the account books of its run: what every address put in, the stakes of the
genesis file included, and what it took out. -/
structure Booked where
  state : ChainState Database
  staked : Address → ℕ
  unstaked : Address → ℕ

/-- A step of a node that enters what its transactions put in and take out. -/
def BookedStep (P : Primitives) (W : Wasmtime) (cfg : VmConfig) (g : GenesisConfig) (r : Booked)
    (op : ChainOp W) (r' : Booked) : Prop :=
  ChainStep P W cfg g r.state op r'.state ∧
    (∀ a, r'.staked a = r.staked a + depositedIn (executedBy P W cfg r.state op) a) ∧
    ∀ a, r'.unstaked a = r.unstaked a +
      withdrawnIn r.state.currentEpoch.validatorSet (executedBy P W cfg r.state op) a

/-- No overflow, no restart, and at the end of an epoch no record with a deposit is left out. -/
def KeepsDeposits (P : Primitives) (W : Wasmtime) (cfg : VmConfig) (r : Booked) :
    ChainOp W → Prop
  | .applyBlock ord cache block => NoOverflow P W cfg r.state (.applyBlock ord cache block)
  | .advanceEpoch params _ => r.state.height = r.state.currentEpoch.endBlock →
      AllKept params r.state.currentEpoch.validatorSet.validators
  | .putValidator _ => True
  | .restart => False

theorem withdrawable_maybeAdvanceEpoch_iff {params : ConsensusParams} {now : ℕ}
    {s : ChainState Database}
    (hn : (s.currentEpoch.validatorSet.validators.map (·.address)).Nodup) :
    (∀ a, withdrawable (maybeAdvanceEpoch params now s).val.2.currentEpoch.validatorSet a =
      withdrawable s.currentEpoch.validatorSet a) ↔
      (s.height = s.currentEpoch.endBlock →
        AllKept params s.currentEpoch.validatorSet.validators) := by
  rw [maybeAdvanceEpoch_eq]
  split_ifs with hend
  · constructor
    · exact fun h _ => (stakeIn_nextValidators_iff now hn).mp h
    · exact fun h => (stakeIn_nextValidators_iff now hn).mpr (h hend)
  · exact ⟨fun _ h => absurd h hend, fun _ _ => rfl⟩

/-- The books of a run balance: what an address can take out and has taken out is what it put in. -/
structure Balanced (r : Booked) : Prop where
  nodup : (r.state.currentEpoch.validatorSet.validators.map (·.address)).Nodup
  sum : ∀ a, withdrawable r.state.currentEpoch.validatorSet a + r.unstaked a = r.staked a

theorem balanced_step (hg : (g.initialValidators.map (·.address)).Nodup) {r r' : Booked}
    {op : ChainOp W} (h : Balanced r) (hG : KeepsDeposits P W cfg r op)
    (hs : BookedStep P W cfg g r op r') : Balanced r' := by
  obtain ⟨hstep, hin, hout⟩ := hs
  refine ⟨nodup_setStep hg h.nodup (setStep hstep), fun a => ?_⟩
  rw [hin, hout]
  have hsum := h.sum a
  have hset := setStep hstep
  generalize r'.state.currentEpoch.validatorSet = vs at hset
  cases hset with
  | txs hovf =>
    have hbal := withdrawable_restakes (hovf hG) a
    omega
  | @epoch params now hend =>
    have hkept : withdrawable (nextSet params now r.state.currentEpoch.validatorSet) a =
        withdrawable r.state.currentEpoch.validatorSet a :=
      (stakeIn_nextValidators_iff now h.nodup).mpr (hG hend) a
    rw [hkept]
    exact hsum
  | withinEpoch _ => exact hsum
  | stored => exact hsum
  | restarted => exact hG.elim

/-- **Deposits.** For a genesis file with distinct validators: a call of `maybe_advance_epoch` in a
reachable state leaves every address what it can take out if and only if the call is not at the end
of an epoch or every record with a deposit has the minimum and there is room for all of them. Along
every run whose transitions meet this, what an address put in is what it took out and can still take
out. -/
theorem deposits_kept_iff (P : Primitives) (W : Wasmtime) (cfg : VmConfig) {g : GenesisConfig}
    (hg : (g.initialValidators.map (·.address)).Nodup) :
    (∀ s params now, Reachable P W cfg g s →
      ((∀ a, withdrawable (maybeAdvanceEpoch params now s).val.2.currentEpoch.validatorSet a =
        withdrawable s.currentEpoch.validatorSet a) ↔
        (s.height = s.currentEpoch.endBlock →
          AllKept params s.currentEpoch.validatorSet.validators))) ∧
    ∀ s₀ ops r, Started P g s₀ →
      Run (BookedStep P W cfg g) (KeepsDeposits P W cfg)
        ⟨s₀, withdrawable (genesisValidatorSet g), fun _ => 0⟩ ops r →
      ∀ a, r.staked a = r.unstaked a + withdrawable r.state.currentEpoch.validatorSet a := by
  refine ⟨fun s params now hs => withdrawable_maybeAdvanceEpoch_iff (hs.nodup hg), ?_⟩
  rintro s₀ ops r ⟨d, hd⟩ hrun a
  have hbal : Balanced r := by
    refine hrun.invariant ⟨?_, fun b => ?_⟩ fun t op u ht hG hs => balanced_step hg ht hG hs
    · rw [validatorSet_fromGenesis hd]
      exact nodup_genesis hg
    · rw [validatorSet_fromGenesis hd]
      rfl
  rw [← hbal.sum a]
  exact Nat.add_comm _ _

/-! ### A deposit below the minimum -/

namespace Small

def pairEpochs : GenesisConfig :=
  { genesis with consensusParams := { genesis.consensusParams with epochLength := 2 } }

def pairStart : ChainState Database :=
  ⟨genesisBlock, 0, firstEpoch pairEpochs, initialized .small pairEpochs genesisBlock .empty⟩

theorem pairStarted : Started .small pairEpochs pairStart :=
  ⟨_, fromGenesis_fresh .small (by decide +kernel) rfl rfl⟩

def deposit (value : ℕ) : SignedTransaction := tx 2 0 .stake none value []

def depositBlock (value : ℕ) : Block := next genesisBlock [deposit value]

def applyDeposit (value : ℕ) : ChainOp .small :=
  .applyBlock (fun _ => .listed) ∅ (depositBlock value)

end Small

/-- A deposit of five times the minimum is there after the epoch. -/
theorem large_deposit_kept : ∃ s,
    ChainStep .small .small .default Small.pairEpochs Small.pairStart (Small.applyDeposit 50) s ∧
    s.height = s.currentEpoch.endBlock ∧
    withdrawable s.currentEpoch.validatorSet ((KeyPair.small 2).address .small) = 50 ∧
    ∀ a, withdrawable (maybeAdvanceEpoch Small.pairEpochs.consensusParams 0
      s).val.2.currentEpoch.validatorSet a = withdrawable s.currentEpoch.validatorSet a := by
  obtain ⟨a, rs, ha, hok, hend, hvalue, hkept⟩ := Small.apply_ok Small.pairStart
    (Small.depositBlock 50) (p := fun a => a.state.height = a.state.currentEpoch.endBlock ∧
      withdrawable a.state.currentEpoch.validatorSet ((KeyPair.small 2).address .small) = 50 ∧
      AllKept Small.pairEpochs.consensusParams a.state.currentEpoch.validatorSet.validators)
    (by decide +kernel)
  have hstep : ChainStep .small .small .default Small.pairEpochs Small.pairStart
    (Small.applyDeposit 50) a.state := ⟨a, rs, ha, hok, rfl⟩
  have hreach : Reachable .small .small .default Small.pairEpochs a.state :=
    ⟨Small.pairStart, _, Small.pairStarted, Run.nil.snoc trivial hstep⟩
  exact ⟨a.state, hstep, hend, hvalue, ((deposits_kept_iff .small .small .default
    (g := Small.pairEpochs) (by decide +kernel)).1 a.state _ 0 hreach).mpr fun _ => hkept⟩

/-- Half of the minimum is deposited in the last block of an epoch and is gone after it. -/
theorem small_deposit_lost : ∃ s, Reachable .small .small .default Small.pairEpochs s ∧
    withdrawable s.currentEpoch.validatorSet ((KeyPair.small 2).address .small) = 5 ∧
    withdrawable (maybeAdvanceEpoch Small.pairEpochs.consensusParams 0
      s).val.2.currentEpoch.validatorSet ((KeyPair.small 2).address .small) = 0 := by
  obtain ⟨a, rs, ha, hok, hbefore, hafter⟩ := Small.apply_ok Small.pairStart
    (Small.depositBlock 5) (p := fun a =>
      withdrawable a.state.currentEpoch.validatorSet ((KeyPair.small 2).address .small) = 5 ∧
      withdrawable (maybeAdvanceEpoch Small.pairEpochs.consensusParams 0
        a.state).val.2.currentEpoch.validatorSet ((KeyPair.small 2).address .small) = 0)
    (by decide +kernel)
  have hstep : ChainStep .small .small .default Small.pairEpochs Small.pairStart
    (Small.applyDeposit 5) a.state := ⟨a, rs, ha, hok, rfl⟩
  exact ⟨a.state, ⟨Small.pairStart, _, Small.pairStarted, Run.nil.snoc trivial hstep⟩, hbefore,
    hafter⟩

end Rustchain.Consensus
