import Rustchain.Consensus.GasCharges
import Rustchain.Consensus.Staking

/-! # Withdrawing stake

An unstake transaction names as its value the stake that it takes out, and the check before the
branch on the type demands that the balance covers this value, as if it were spent. So a validator
that can pay for its gas can still be refused its own stake. -/

namespace Rustchain.Consensus

open Rustchain.Core Storage Vm Lib.Machine Lib.Maps Lib.Partial

namespace Exec

/-- The gas charged to a staking transaction: the price of its limit without the refund. -/
def stakingCharge (tx : Transaction) : ℕ := tx.gasLimit * tx.gasPrice - paidBack tx baseGas

/-- **The stake is withdrawn**: the transaction succeeds, the stake falls by the value, and the
balance changes by the value and the gas charged. -/
structure Withdrawn {M : Type} (stx : SignedTransaction) (vi : ValidatorInfo)
    (l l' : Loop M Database) (r : TransactionReceipt) : Prop where
  success : r.status = .success
  stake : ∃ vi', l'.validatorSet.getValidator stx.sender = some vi' ∧
    vi'.stake + stx.transaction.value = vi.stake
  balance : l'.balance stx.sender + stakingCharge stx.transaction =
    l.balance stx.sender + stx.transaction.value

/-- What is asked of an unstake transaction: a validator with a matching nonce takes out at most its
stake and can pay for its gas. -/
structure CanWithdraw {M : Type} (stx : SignedTransaction) (vi : ValidatorInfo)
    (l : Loop M Database) : Prop where
  unstake : stx.transaction.txType = .unstake
  validator : l.validatorSet.getValidator stx.sender = some vi
  nonce : stx.transaction.nonce = (accountOf l.accounts stx.sender).nonce
  value_le : stx.transaction.value ≤ vi.stake
  gas : stx.transaction.gasLimit * stx.transaction.gasPrice ≤ l.balance stx.sender

section
variable {P : Primitives} {W : Wasmtime} {cfg : VmConfig} {ord : HashOrders} {block : Block}
  {stx : SignedTransaction} {vi : ValidatorInfo} {l l' : Loop W.Module Database} {x x' : Account}
  {o : Outcome}

/-- **The branch of an unstake transaction** of at most the stake: the copy of the sender is
credited the value and the refund. -/
theorem executeUnstake_run {M : Type} {l l' : Loop M Database}
    (hv : l.validatorSet.getValidator stx.sender = some vi)
    (hle : stx.transaction.value ≤ vi.stake)
    (h : executeUnstake stx x l = some ((x', o), l')) :
    o.status = .success ∧
      x' = ((x.credit stx.transaction.value).val.credit
        (paidBack stx.transaction baseGas)).val := by
  cases unstakeRun_of_eq_some h with
  | refused hshort => exact absurd (hshort vi hv) (by omega)
  | done _ _ hrefund => exact ⟨rfl, (some_pair_inj hrefund).1.symm⟩

theorem getValidator_unstaked {vs : ValidatorSet} (ht : stx.transaction.txType = .unstake)
    (hv : vs.getValidator stx.sender = some vi) (hle : stx.transaction.value ≤ vi.stake) :
    ∃ vi', (restake vs stx).val.getValidator stx.sender = some vi' ∧
      vi'.stake + stx.transaction.value = vi.stake := by
  have hrestake : restake vs stx = unstakeSet vs stx := by
    unfold restake
    rw [ht]
  obtain ⟨before, after, hrec⟩ := exists_firstRecord hv
  rw [hrestake, unstakeSet, hv]
  dsimp only
  rw [if_neg (by omega), subU_of_le hle]
  unfold ValidatorSet.modifyValidator
  simp only [hrec.modifyFirst_eq]
  have hrec' : FirstRecord (before ++ { vi with
      stake := vi.stake - stx.transaction.value
      isActive := if vi.stake - stx.transaction.value < vs.minStake then false
        else vi.isActive } :: after) stx.sender before _ after := ⟨rfl, hrec.address, hrec.first⟩
  exact ⟨_, hrec'.find?_eq, Nat.sub_add_cancel hle⟩

theorem credit_credit_balance (x : Account) (m n : ℕ) :
    ((x.credit m).val.credit n).val.balance = (x.balance + m + n) % 2 ^ 128 :=
  Nat.mod_add_mod (x.balance + m) (2 ^ 128) n

theorem CanWithdraw.passes_iff (h : CanWithdraw stx vi l) :
    Passes l stx ↔ stx.transaction.totalCost.val ≤ l.balance stx.sender :=
  and_iff_right h.nonce

theorem prepay_balance_of_le {tx : Transaction} (htyped : Typed tx) {x : Account}
    (h : tx.gasLimit * tx.gasPrice ≤ x.balance) :
    (prepay tx x).val.balance = x.balance - tx.gasLimit * tx.gasPrice := by
  unfold prepay
  rw [htyped.maxGasCost]
  show (subU 128 x.balance (tx.gasLimit * tx.gasPrice)).val = _
  rw [subU_of_le h]

theorem wrapped_add_eq_iff {balance cost value back : ℕ} (hcost : cost ≤ balance)
    (hback : back ≤ cost) :
    (balance - cost + value + back) % 2 ^ 128 + (cost - back) = balance + value ↔
      balance + value < 2 ^ 128 + (cost - back) := by
  rw [show balance + value = balance - cost + value + back + (cost - back) by omega,
    Nat.add_right_cancel_iff, Nat.mod_eq_iff_lt (Nat.two_pow_pos 128).ne']
  omega

/-- **One withdrawal**: the stake is withdrawn exactly when the balance covers the value and the gas
before the value is paid out, and has room for it afterwards. -/
theorem withdrawn_iff_of_step {i : ℕ} (htyped : Typed stx.transaction)
    (hcan : CanWithdraw stx vi l) (h : executeTx P W cfg ord block i stx l = some ((), l'))
    (ho : l'.receipts = l.receipts ++ [receiptOf P block i stx o]) :
    Withdrawn stx vi l l' (receiptOf P block i stx o) ↔
      stx.transaction.totalCost.val ≤ l.balance stx.sender ∧
        l.balance stx.sender + stx.transaction.value <
          2 ^ 128 + stakingCharge stx.transaction := by
  rw [← hcan.passes_iff]
  by_cases hp : Passes l stx
  · obtain ⟨x, l1, hrun, rfl⟩ := executeTx_outcome hp h ho
    have hset : l1.validatorSet = (restake l.validatorSet stx).val := (executeType_set hrun).1
    have hv : (entered l stx).validatorSet.getValidator stx.sender = some vi := hcan.validator
    unfold executeType at hrun
    rw [hcan.unstake] at hrun
    obtain ⟨hstatus, rfl⟩ := executeUnstake_run hv hcan.value_le hrun
    have hstake := getValidator_unstaked hcan.unstake hcan.validator hcan.value_le
    rw [← hset] at hstake
    rw [and_iff_right hp, stakingCharge, ← wrapped_add_eq_iff hcan.gas (paidBack_le _ _)]
    have hbalance : ∀ gas r, (finished l1 stx.sender (((prepay stx.transaction
        (accountOf l.accounts stx.sender)).val.credit stx.transaction.value).val.credit
          (paidBack stx.transaction baseGas)).val gas r).balance stx.sender =
        (l.balance stx.sender - stx.transaction.gasLimit * stx.transaction.gasPrice +
          stx.transaction.value + paidBack stx.transaction baseGas) % 2 ^ 128 := by
      intro gas r
      rw [balance_finished_self, credit_credit_balance, prepay_balance_of_le htyped hcan.gas]
      rfl
    constructor
    · rintro ⟨-, -, hb⟩
      rwa [hbalance] at hb
    · intro hb
      refine ⟨hstatus, hstake, ?_⟩
      rwa [hbalance]
  · -- the transaction is refused
    obtain ⟨msg, ov, hskip⟩ := executeTx_skip P W cfg ord block i hp
    rw [hskip] at h
    obtain ⟨-, rfl⟩ := some_pair_inj h
    obtain rfl := receiptOf_injective (List.singleton_inj.mp (List.append_cancel_left ho))
    refine iff_of_false (fun hw => ?_) fun hw => hp hw.1
    cases hw.success

end

end Exec

/-- **Which stake can be withdrawn**: at the turn of an unstake transaction of a validator that can
pay for its gas, exactly if its balance also covers the value that it takes out, and has room for
it. -/
theorem withdrawn_iff {P : Primitives} {W : Wasmtime} {cfg : VmConfig} {ord : ℕ → HashOrders}
    {cache : HashMap Blake3Hash W.Module} {s : ChainState Database} {block : Block}
    {a : Applied W.Module Database} {rs : List TransactionReceipt}
    (h : applyBlock P W cfg ord cache s block = some a) (hok : a.result = .ok rs) {i : ℕ}
    {stx : SignedTransaction} (hi : block.transactions[i]? = some stx)
    (htyped : Typed stx.transaction) :
    ∃ l l' r, Exec.AtTurn P W cfg ord block (s.toLoop cache) i stx l l' ∧ rs[i]? = some r ∧
      ∀ vi, Exec.CanWithdraw stx vi l → (Exec.Withdrawn stx vi l l' r ↔
        stx.transaction.totalCost.val ≤ l.balance stx.sender ∧
          l.balance stx.sender + stx.transaction.value <
            2 ^ 128 + Exec.stakingCharge stx.transaction) := by
  obtain ⟨l, l', o, hturn, hreceipts, hr⟩ := exists_turn_of_applied h hok hi
  exact ⟨l, l', _, hturn, hr, fun vi hcan =>
    Exec.withdrawn_iff_of_step htyped hcan hturn.step hreceipts⟩

/-! ### A validator with more stake than balance -/

namespace Small

def stakedGenesis : GenesisConfig :=
  { genesis with
    initialValidators :=
      [⟨(KeyPair.small 1).address .small, (KeyPair.small 1).publicKey .small, 100000⟩]
    initialAccounts := [⟨(KeyPair.small 1).address .small, 60000⟩] }

def stakedStart : ChainState Database :=
  ⟨genesisBlock, 0, firstEpoch stakedGenesis, initialized .small stakedGenesis genesisBlock .empty⟩

theorem started_staked : Started .small stakedGenesis stakedStart :=
  ⟨_, fromGenesis_fresh .small (by decide +kernel) rfl rfl⟩

def unstakeTx (value : ℕ) : SignedTransaction := tx 1 0 .unstake none value []

def unstakeBlock (value : ℕ) : Block := next genesisBlock [unstakeTx value]

def stakedValidator : ValidatorInfo :=
  .new ((KeyPair.small 1).address .small) ((KeyPair.small 1).publicKey .small) 100000

def stakedLoop : Loop Small.Module Database := stakedStart.toLoop ∅

theorem canWithdraw_unstakeTx {value : ℕ} (h : value ≤ 100000) :
    Exec.CanWithdraw (unstakeTx value) stakedValidator stakedLoop where
  unstake := rfl
  validator := by
    show stakedLoop.validatorSet.getValidator ((KeyPair.small 1).address .small) = _
    decide +kernel
  nonce := by
    show 0 = (accountOf stakedLoop.accounts ((KeyPair.small 1).address .small)).nonce
    decide +kernel
  value_le := h
  gas := by
    show 50000 * 1 ≤ (accountOf stakedLoop.accounts ((KeyPair.small 1).address .small)).balance
    decide +kernel

end Small

/-- With 10000 of the stake as the value, the balance covers the value and the gas. -/
theorem withdrawn_10000 : Started .small Small.stakedGenesis Small.stakedStart ∧ ∃ a rs l l' r,
    Small.apply Small.stakedStart (Small.unstakeBlock 10000) = some a ∧ a.result = .ok rs ∧
    Exec.AtTurn .small .small .default (fun _ => .listed) (Small.unstakeBlock 10000)
      (Small.stakedStart.toLoop ∅) 0 (Small.unstakeTx 10000) l l' ∧ rs[0]? = some r ∧
    Exec.CanWithdraw (Small.unstakeTx 10000) Small.stakedValidator l ∧
    Exec.Withdrawn (Small.unstakeTx 10000) Small.stakedValidator l l' r := by
  obtain ⟨a, rs, ha, hok, -⟩ := Small.apply_ok Small.stakedStart (Small.unstakeBlock 10000)
    (p := fun _ => True) (by decide +kernel)
  obtain ⟨l, l', r, hturn, hr, hiff⟩ := withdrawn_iff ha hok
    (show (Small.unstakeBlock 10000).transactions[0]? = some (Small.unstakeTx 10000) from rfl)
    ⟨by decide, by decide, by decide⟩
  obtain ⟨-, rfl⟩ := pure_eq_some hturn.before
  have hcan := Small.canWithdraw_unstakeTx (show 10000 ≤ 100000 by decide)
  refine ⟨Small.started_staked, a, rs, _, l', r, ha, hok, hturn, hr, hcan,
    (hiff _ hcan).mpr ?_⟩
  decide +kernel

/-- **With 20000 as the value** it does not: the validator can pay for its gas, and is refused. -/
theorem not_withdrawn_20000 : Started .small Small.stakedGenesis Small.stakedStart ∧ ∃ a rs l' r,
    Small.apply Small.stakedStart (Small.unstakeBlock 20000) = some a ∧ a.result = .ok rs ∧
    Exec.AtTurn .small .small .default (fun _ => .listed) (Small.unstakeBlock 20000)
      (Small.stakedStart.toLoop ∅) 0 (Small.unstakeTx 20000) Small.stakedLoop l' ∧
    rs[0]? = some r ∧
    Exec.CanWithdraw (Small.unstakeTx 20000) Small.stakedValidator Small.stakedLoop ∧
    ¬ Exec.Withdrawn (Small.unstakeTx 20000) Small.stakedValidator Small.stakedLoop l' r := by
  obtain ⟨a, rs, ha, hok, -⟩ := Small.apply_ok Small.stakedStart (Small.unstakeBlock 20000)
    (p := fun _ => True) (by decide +kernel)
  obtain ⟨l', o, hturn, hreceipts, hr⟩ := Small.first_turn ha hok
    (show (Small.unstakeBlock 20000).transactions[0]? = some (Small.unstakeTx 20000) from rfl)
  have hcan := Small.canWithdraw_unstakeTx (show 20000 ≤ 100000 by decide)
  refine ⟨Small.started_staked, a, rs, l', _, ha, hok, hturn, hr, hcan, fun hw => ?_⟩
  have hcovered := ((Exec.withdrawn_iff_of_step ⟨by decide, by decide, by decide⟩ hcan hturn.step
    hreceipts).mp hw).1
  revert hcovered
  decide +kernel

end Rustchain.Consensus
