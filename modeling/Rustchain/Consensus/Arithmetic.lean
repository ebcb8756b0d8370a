import Rustchain.Consensus.Conservation
import Rustchain.Consensus.GasCharges
import Rustchain.Consensus.GasLimits
import Rustchain.Consensus.Staking
import Rustchain.Consensus.Widths

/-! # Arithmetic of a block

Which operations of `apply_block` can leave the range of their types when all balances and stakes
together are below `2 ^ 127`. Debits, credits, stakes and their sums cannot, as long as the check of
the cost is exact. But the cost itself is a sum of a `u128` and a product of two `u64`, the refund
is a product in `u64`, and the gas of a block is a sum in `u64`: for these the transactions alone
decide (`arithmeticSafe_iff`). -/

namespace Rustchain.Consensus

open Rustchain.Core Storage Vm Lib.Machine Lib.Maps Lib.Partial

/-- The cost of a transaction, as an exact number. -/
def exactCost (tx : Transaction) : ℕ := tx.value + tx.gasLimit * tx.gasPrice

/-- The price of the gas that is not used, as an exact number. -/
def unusedPrice (tx : Transaction) (gasUsed : ℕ) : ℕ := (tx.gasLimit - gasUsed) * tx.gasPrice

theorem unusedPrice_le (tx : Transaction) (gasUsed : ℕ) :
    unusedPrice tx gasUsed ≤ tx.gasLimit * tx.gasPrice :=
  Nat.mul_le_mul_right _ (Nat.sub_le _ _)

theorem Typed.totalCost {tx : Transaction} (h : Typed tx) :
    tx.totalCost = addU 128 tx.value (tx.gasLimit * tx.gasPrice) := by
  unfold Transaction.totalCost
  rw [h.maxGasCost]
  exact Flagged.ext rfl (Bool.false_or _)

theorem Typed.totalCost_ovf {tx : Transaction} (h : Typed tx) :
    tx.totalCost.ovf = false ↔ exactCost tx < 2 ^ 128 := by
  rw [h.totalCost, addU_ovf]
  rfl

theorem Typed.totalCost_val {tx : Transaction} (h : Typed tx) (hlt : exactCost tx < 2 ^ 128) :
    tx.totalCost.val = exactCost tx := by
  have hovf := h.totalCost_ovf.mpr hlt
  rw [h.totalCost] at hovf ⊢
  exact addU_val hovf

/-! ### Stakes -/

theorem recalculateTotalStake_ovf {vs : ValidatorSet} (h : stakeTotal vs < 2 ^ 128) :
    vs.recalculateTotalStake.ovf = false := by
  show ((activeStakeSum vs.validators).ovf || false) = false
  rw [Bool.or_false]
  refine sumU_ovf.mpr (lt_of_le_of_lt ?_ h)
  exact (List.filter_sublist.map _).sum_le_sum fun _ _ => Nat.zero_le _

theorem stakeSet_ovf {vs : ValidatorSet} {stx : SignedTransaction}
    (h : stakeTotal vs + stx.transaction.value < 2 ^ 128) : (stakeSet vs stx).ovf = false := by
  unfold stakeSet
  cases hv : vs.getValidator stx.sender with
  | some vi =>
    have hnone := stakeTotal_modifyValidator hv { vi with stake := 0 }
    have hset := stakeTotal_modifyValidator hv
      { vi with stake := (addU 128 vi.stake stx.transaction.value).val, isActive := true }
    dsimp only at hset hnone ⊢
    have hadd : (addU 128 vi.stake stx.transaction.value).ovf = false := addU_ovf.mpr (by omega)
    have hval := addU_val hadd
    rw [ovf_bind, hadd, Bool.false_or]
    exact recalculateTotalStake_ovf (by omega)
  | none =>
    refine recalculateTotalStake_ovf ?_
    unfold stakeTotal at h ⊢
    rw [List.map_append, List.sum_append]
    exact h

theorem unstakeSet_ovf {vs : ValidatorSet} {stx : SignedTransaction}
    (h : stakeTotal vs < 2 ^ 128) : (unstakeSet vs stx).ovf = false := by
  unfold unstakeSet
  cases hv : vs.getValidator stx.sender with
  | none => rfl
  | some vi =>
    dsimp only
    split_ifs with hlt
    · rfl
    · rw [subU_of_le (by omega)]
      refine recalculateTotalStake_ovf ?_
      have hset := stakeTotal_modifyValidator hv { vi with
        stake := vi.stake - stx.transaction.value
        isActive := if vi.stake - stx.transaction.value < vs.minStake then false
          else vi.isActive }
      dsimp only at hset ⊢
      omega

namespace Exec

/-! ### Wealth bounds balances and stakes -/

theorem balance_add_stakeTotal_le {M : Type} (l : Loop M Database) (a : Address) :
    l.balance a + stakeTotal l.validatorSet ≤ l.wealth := by
  have h := total_balance_insert l.accounts a { accountOf l.accounts a with balance := 0 }
  unfold Loop.balance Loop.wealth
  dsimp only at h
  omega

/-- **The sender can pay**: its balance is a value of `u128` and covers all of the cost, and the
copy `x` has paid for the gas. -/
structure Payable {M : Type} (stx : SignedTransaction) (l : Loop M Database) (x : Account) :
    Prop where
  covered : exactCost stx.transaction ≤ l.balance stx.sender
  inWidth : l.balance stx.sender < 2 ^ 128
  prepaid : x.balance + stx.transaction.gasLimit * stx.transaction.gasPrice = l.balance stx.sender

section
variable {M : Type} {stx : SignedTransaction} {l : Loop M Database} {x : Account}

theorem Payable.balance_add_lt (h : Payable stx l x) (gasUsed : ℕ) :
    x.balance + unusedPrice stx.transaction gasUsed < 2 ^ 128 := by
  have hback := unusedPrice_le stx.transaction gasUsed
  have hlt := h.inWidth
  have hpaid := h.prepaid
  omega

theorem Payable.value_le (h : Payable stx l x) : stx.transaction.value ≤ x.balance := by
  have hcov := h.covered
  have hpaid := h.prepaid
  unfold exactCost at hcov
  omega

theorem Payable.debit_add_lt (h : Payable stx l x) (gasUsed : ℕ) :
    (x.debit stx.transaction.value).val.balance + unusedPrice stx.transaction gasUsed <
      2 ^ 128 := by
  have hlt := h.balance_add_lt gasUsed
  rw [(Account.debit_balance (Account.debit_ovf.mpr h.value_le)).1]
  omega

end

/-! ### The branches without a contract -/

section
variable {M : Type} {tx : Transaction} {stx : SignedTransaction} {l l' : Loop M Database}
  {x x' : Account} {o : Outcome}

theorem overflow_refundGas {g : ℕ} (h : refundGas tx g x l = some (x', l')) :
    l'.overflow = false ↔ l.overflow = false ∧ unusedPrice tx g < 2 ^ 64 ∧
      x.balance + unusedPrice tx g < 2 ^ 128 := by
  rw [refundGas_apply] at h
  obtain ⟨-, rfl⟩ := some_pair_inj h
  dsimp only
  rw [Bool.or_eq_false_iff, Bool.or_eq_false_iff, Account.credit_ovf, and_assoc]
  refine and_congr_right fun _ => ?_
  constructor
  · rintro ⟨hm, hc⟩
    rw [mulU_val hm] at hc
    exact ⟨mulU_ovf.mp hm, hc⟩
  · rintro ⟨hm, hc⟩
    refine ⟨mulU_ovf.mpr hm, ?_⟩
    rw [mulU_val (mulU_ovf.mpr hm)]
    exact hc

theorem overflow_executeTransfer (h : executeTransfer tx x l = some ((x', o), l')) :
    l'.overflow = false ↔
      (l.overflow = false ∧ tx.value ≤ x.balance ∧
        l.balance (tx.toAddr.getD Address.zero) + tx.value < 2 ^ 128) ∧
      unusedPrice tx baseGas < 2 ^ 64 ∧
      (x.debit tx.value).val.balance + unusedPrice tx baseGas < 2 ^ 128 := by
  rw [overflow_refundGas (executeTransfer_run h).2]
  refine and_congr_left' ?_
  show (l.overflow || _ || _) = false ↔ _
  rw [Bool.or_eq_false_iff, Bool.or_eq_false_iff, Account.debit_ovf, Account.credit_ovf, and_assoc]
  rfl

theorem overflow_executeStake (h : executeStake stx x l = some ((x', o), l')) :
    l'.overflow = false ↔
      (l.overflow = false ∧ stx.transaction.value ≤ x.balance ∧
        (stakeSet l.validatorSet stx).ovf = false) ∧
      unusedPrice stx.transaction baseGas < 2 ^ 64 ∧
      (x.debit stx.transaction.value).val.balance + unusedPrice stx.transaction baseGas <
        2 ^ 128 := by
  obtain ⟨-, vi, hrefund⟩ := executeStake_run h
  rw [overflow_refundGas hrefund]
  refine and_congr_left' ?_
  show (l.overflow || _ || _) = false ↔ _
  rw [Bool.or_eq_false_iff, Bool.or_eq_false_iff, Account.debit_ovf, and_assoc]

/-- The stake that an unstake transaction pays out. -/
def paidOut (vs : ValidatorSet) (stx : SignedTransaction) : ℕ :=
  match vs.getValidator stx.sender with
  | some vi => if vi.stake < stx.transaction.value then 0 else stx.transaction.value
  | none => 0

theorem paidOut_le (vs : ValidatorSet) (stx : SignedTransaction) :
    paidOut vs stx ≤ stakeTotal vs := by
  unfold paidOut
  cases hv : vs.getValidator stx.sender with
  | none => exact Nat.zero_le _
  | some vi =>
    have hnone := stakeTotal_modifyValidator hv { vi with stake := 0 }
    dsimp only at hnone ⊢
    split_ifs <;> omega

theorem overflow_executeUnstake (h : executeUnstake stx x l = some ((x', o), l')) :
    l'.overflow = false ↔
      (l.overflow = false ∧ (unstakeSet l.validatorSet stx).ovf = false) ∧
      unusedPrice stx.transaction baseGas < 2 ^ 64 ∧
      x.balance + paidOut l.validatorSet stx + unusedPrice stx.transaction baseGas < 2 ^ 128 := by
  unfold paidOut
  cases unstakeRun_of_eq_some h with
  | refused hshort hrefund =>
    rw [overflow_refundGas hrefund, unstakeSet_of_lt hshort, ovf_pure, and_iff_left rfl]
    cases hv : l.validatorSet.getValidator stx.sender with
    | none => rfl
    | some vi =>
      dsimp only
      rw [if_pos (hshort vi hv)]
      rfl
  | done hv hle hrefund =>
    rw [overflow_refundGas hrefund, hv]
    dsimp only
    rw [if_neg (by omega), Bool.or_eq_false_iff, Bool.or_eq_false_iff]
    -- the credit of the value is in range if the one of the refund after it is
    constructor
    · rintro ⟨⟨hset, hc⟩, hm, hr⟩
      rw [Account.credit_balance hc] at hr
      exact ⟨hset, hm, hr⟩
    · rintro ⟨hset, hm, hr⟩
      have hc : (x.credit stx.transaction.value).ovf = false := Account.credit_ovf.mpr (by omega)
      refine ⟨⟨hset, hc⟩, hm, ?_⟩
      rw [Account.credit_balance hc]
      exact hr

/-- **The sums of a transaction without a contract** are in range: the balance of the recipient, the
stakes, and the balance of the sender after its stake was paid out. -/
def SumsFit (stx : SignedTransaction) (l : Loop M Database) : Prop :=
  match stx.transaction.txType with
  | .transfer =>
    l.balance (stx.transaction.toAddr.getD Address.zero) + stx.transaction.value < 2 ^ 128
  | .stake => (stakeSet l.validatorSet stx).ovf = false
  | .unstake => (unstakeSet l.validatorSet stx).ovf = false ∧
    l.balance stx.sender - stx.transaction.gasLimit * stx.transaction.gasPrice +
      paidOut l.validatorSet stx + unusedPrice stx.transaction baseGas < 2 ^ 128
  | _ => True

theorem sumsFit_of_wealth (hcov : exactCost stx.transaction ≤ l.balance stx.sender)
    (hw : l.wealth < 2 ^ 127) : SumsFit stx l := by
  have hsender := balance_add_stakeTotal_le l stx.sender
  have hto := balance_add_stakeTotal_le l (stx.transaction.toAddr.getD Address.zero)
  have hpaid := paidOut_le l.validatorSet stx
  have hback := unusedPrice_le stx.transaction baseGas
  unfold exactCost at hcov
  unfold SumsFit
  split
  · omega
  · exact stakeSet_ovf (by omega)
  · exact ⟨unstakeSet_ovf (by omega), by omega⟩
  · trivial

/-! ### The flush -/

/-- A delta can be added to a balance: both the cast to `i128` and the sum are in range. -/
def DeltaFits (balance : ℕ) (delta : ℤ) : Prop :=
  InRangeI 128 balance ∧ InRangeI 128 (balance + delta)

theorem overflow_applyBalanceChange {a : Address} {d : ℤ} {u : Unit}
    (h : applyBalanceChange a d l = some (u, l')) :
    (l'.overflow = false ↔ l.overflow = false ∧ DeltaFits (l.balance a) d) ∧
      ∀ b, b ≠ a → l'.balance b = l.balance b := by
  unfold applyBalanceChange at h
  rw [bind_of_eq (getOrCreate_apply _ _), bind_of_eq (arith_apply _ _),
    bind_of_eq (arith_apply _ _), insertAccount_apply] at h
  obtain ⟨-, rfl⟩ := some_pair_inj h
  refine ⟨?_, fun b hb => ?_⟩
  · show (l.overflow || _ || _) = false ↔ _
    rw [Bool.or_eq_false_iff, Bool.or_eq_false_iff, and_assoc]
    refine and_congr_right fun _ => ?_
    constructor
    · rintro ⟨hcast, hadd⟩
      have hbase : (toSigned 128 (accountOf l.accounts a).balance).val = _ := fitI_val hcast
      rw [hbase] at hadd
      exact ⟨fitI_ovf.mp hcast, fitI_ovf.mp hadd⟩
    · rintro ⟨hcast, hadd⟩
      have hbase : (toSigned 128 (accountOf l.accounts a).balance).val = _ :=
        fitI_val (fitI_ovf.mpr hcast)
      refine ⟨fitI_ovf.mpr hcast, ?_⟩
      rw [hbase]
      exact fitI_ovf.mpr hadd
  · unfold Loop.balance
    show (accountOf (l.put a _).accounts b).balance = _
    rw [Loop.accounts_put, accountOf_insert_ne _ _ hb]

theorem overflow_forM_applyBalanceChange : ∀ {es : List (Sigma fun _ : Address => ℤ)},
    es.NodupKeys → ∀ {u : Unit} {l l' : Loop M Database},
    es.forM (fun e => applyBalanceChange e.1 e.2) l = some (u, l') →
    (l'.overflow = false ↔ l.overflow = false ∧ ∀ e ∈ es, DeltaFits (l.balance e.1) e.2)
  | [], _, u, l, l', h => by
    obtain ⟨-, rfl⟩ := pure_eq_some h
    simp
  | e :: es, hn, u, l, l', h => by
    obtain ⟨he, hes⟩ := List.nodupKeys_cons.mp hn
    obtain ⟨_, l1, h1, h2⟩ := bind_eq_some.mp h
    obtain ⟨hov, hbal⟩ := overflow_applyBalanceChange h1
    rw [overflow_forM_applyBalanceChange hes h2, hov, List.forall_mem_cons, and_assoc]
    refine and_congr_right fun _ => and_congr_right fun _ => forall₂_congr fun f hf => ?_
    rw [hbal f.1 fun hfe => he (hfe ▸ List.mem_keys_of_mem hf)]

theorem overflow_flush {ord : HashOrders} {c : ExecutionContext} {u : Unit}
    (h : flush ord c l = some (u, l')) :
    l'.overflow = false ↔ l.overflow = false ∧
      ∀ e ∈ c.balanceChanges.entries, DeltaFits (l.balance e.1) e.2 := by
  obtain ⟨_, l1, h1, h2⟩ := bind_eq_some.mp h
  obtain ⟨hacc, hov1⟩ := accounts_applyStorageChanges _ _ _ _ _ h1
  have hp := ord.balances.perm c.balanceChanges.entries
  have hn : (ord.balances.visit c.balanceChanges.entries).NodupKeys :=
    (List.perm_nodupKeys hp).mpr c.balanceChanges.nodupKeys
  have hbase : ∀ a, l1.balance a = l.balance a := fun a => by unfold Loop.balance; rw [hacc]
  rw [overflow_forM_applyBalanceChange hn h2, hov1]
  simp only [hp.mem_iff, hbase]

end

/-! ### The branches with a contract -/

section
variable (P : Primitives) (W : Wasmtime) (cfg : VmConfig)

/-- **The execution of a contract fits**: the VM stays in range, and so does the flush of its
deltas. -/
structure ContractFits (block : Block) (stx : SignedTransaction) (l : Loop W.Module Database) :
    Prop where
  vm : ∀ entry contract, contractEntry stx l = some (entry, contract) → ∀ r s,
    entry.run P W cfg (vmStart W block stx contract l) = some (r, s) → s.overflow = false
  flush : ∀ run, contractRun P W cfg block stx l = some run →
    ∀ e ∈ run.context.balanceChanges.entries, DeltaFits (base l stx run e.1) e.2

/-- **What the branch on the type needs**: a refund that is in range, unless there is none, an
execution that fits, and if it is `late` also the sums. -/
structure BranchFits (block : Block) (stx : SignedTransaction) (l : Loop W.Module Database)
    (gasUsed : ℕ) (late : Prop) : Prop where
  refund : ¬ NoCode stx.transaction l → unusedPrice stx.transaction gasUsed < 2 ^ 64
  contract : ContractFits P W cfg block stx l
  sums : late → SumsFit stx l

/-- **What an executed transaction needs.** -/
structure RunFits (block : Block) (stx : SignedTransaction) (l : Loop W.Module Database)
    (gasUsed : ℕ) (late : Prop) : Prop where
  nonce : (accountOf l.accounts stx.sender).nonce + 1 < 2 ^ 64
  gas : l.totalGasUsed + gasUsed < 2 ^ 64
  branch : BranchFits P W cfg block stx l gasUsed late

/-- **What a transaction needs at its turn**: unless its nonce is wrong, a cost that is in range,
and if the sender can pay it, a run that fits. -/
def TurnFits (block : Block) (stx : SignedTransaction) (l : Loop W.Module Database)
    (gasUsed : ℕ) (late : Prop) : Prop :=
  stx.transaction.nonce = (accountOf l.accounts stx.sender).nonce →
    exactCost stx.transaction < 2 ^ 128 ∧
      (exactCost stx.transaction ≤ l.balance stx.sender →
        RunFits P W cfg block stx l gasUsed late)

end

section
variable {P : Primitives} {W : Wasmtime} {cfg : VmConfig} {ord : HashOrders} {block : Block}
  {stx : SignedTransaction} {l l' : Loop W.Module Database} {x x' : Account} {o : Outcome}

theorem contractFits_of_none (hentry : contractEntry stx l = none)
    (hrun : contractRun P W cfg block stx l = none) : ContractFits P W cfg block stx l where
  vm _ _ hc := by cases hentry.symm.trans hc
  flush _ hr := by cases hrun.symm.trans hr

theorem contractFits_of_native (hn : Native stx) : ContractFits P W cfg block stx l := by
  refine contractFits_of_none ?_ ?_
  · rcases hn with ht | ht | ht <;> simp only [contractEntry, ht]
  · rcases hn with ht | ht | ht <;> simp only [contractRun, ht]

theorem branchFits_iff_of_refund {gasUsed : ℕ} (hcode : ¬ NoCode stx.transaction l)
    (hsums : SumsFit stx l) : BranchFits P W cfg block stx l gasUsed True ↔
      unusedPrice stx.transaction gasUsed < 2 ^ 64 ∧ ContractFits P W cfg block stx l :=
  ⟨fun h => ⟨h.refund hcode, h.contract⟩, fun h => ⟨fun _ => h.1, h.2, fun _ => hsums⟩⟩

theorem branchFits_iff_of_native (hn : Native stx) {gasUsed : ℕ} :
    BranchFits P W cfg block stx l gasUsed True ↔
      unusedPrice stx.transaction gasUsed < 2 ^ 64 ∧ SumsFit stx l := by
  have hcode : ¬ NoCode stx.transaction l := by
    rintro ⟨hc, -⟩
    rcases hn with ht | ht | ht <;> cases ht.symm.trans hc
  exact ⟨fun h => ⟨h.refund hcode, h.sums trivial⟩,
    fun h => ⟨fun _ => h.1, contractFits_of_native hn, fun _ => h.2⟩⟩

theorem overflow_native (hn : Native stx) (hpay : Payable stx l x)
    (h : executeType P W cfg ord block stx x (entered l stx) = some ((x', o), l')) :
    l'.overflow = false ↔ (entered l stx).overflow = false ∧
      BranchFits P W cfg block stx l o.gasUsed True := by
  rw [branchFits_iff_of_native hn]
  unfold executeType at h
  unfold SumsFit
  rcases hn with ht | ht | ht
  · rw [ht] at h ⊢
    rw [executeTransfer_gas h, overflow_executeTransfer h]
    constructor
    · rintro ⟨⟨hov, -, hto⟩, hm, -⟩
      exact ⟨hov, hm, hto⟩
    · rintro ⟨hov, hm, hto⟩
      exact ⟨⟨hov, hpay.value_le, hto⟩, hm, hpay.debit_add_lt baseGas⟩
  · rw [ht] at h ⊢
    rw [executeStake_gas h, overflow_executeStake h]
    constructor
    · rintro ⟨⟨hov, -, hset⟩, hm, -⟩
      exact ⟨hov, hm, hset⟩
    · rintro ⟨hov, hm, hset⟩
      exact ⟨⟨hov, hpay.value_le, hset⟩, hm, hpay.debit_add_lt baseGas⟩
  · rw [ht] at h ⊢
    rw [executeUnstake_gas h, overflow_executeUnstake h, ← hpay.prepaid,
      Nat.add_sub_cancel]
    constructor
    · rintro ⟨⟨hov, hset⟩, hm, hlt⟩
      exact ⟨hov, hm, hset, hlt⟩
    · rintro ⟨hov, hm, hset, hlt⟩
      exact ⟨⟨hov, hset⟩, hm, hlt⟩

theorem contractFits_of_run_none {entry : Entry} {contract : Address} {r : Except VmError ℕ}
    {s : VmState W.Module Database} (hentry : contractEntry stx l = some (entry, contract))
    (hrun : entry.run P W cfg (vmStart W block stx contract l) = some (r, s))
    (hnone : contractRun P W cfg block stx l = none) :
    ContractFits P W cfg block stx l ↔ s.overflow = false := by
  constructor
  · exact fun h => h.vm _ _ hentry _ _ hrun
  · refine fun hs => ⟨fun entry' contract' hc r' s' hr => ?_, fun run hr => ?_⟩
    · cases hentry.symm.trans hc
      cases hrun.symm.trans hr
      exact hs
    · cases hnone.symm.trans hr

theorem contractFits_of_run_some {entry : Entry} {contract : Address} {r : Except VmError ℕ}
    {s : VmState W.Module Database} {run : ContractRun}
    (hentry : contractEntry stx l = some (entry, contract))
    (hrun : entry.run P W cfg (vmStart W block stx contract l) = some (r, s))
    (hsome : contractRun P W cfg block stx l = some run) :
    ContractFits P W cfg block stx l ↔ s.overflow = false ∧
      ∀ e ∈ run.context.balanceChanges.entries, DeltaFits (base l stx run e.1) e.2 := by
  constructor
  · exact fun h => ⟨h.vm _ _ hentry _ _ hrun, h.flush _ hsome⟩
  · rintro ⟨hs, hd⟩
    refine ⟨fun entry' contract' hc r' s' hr => ?_, fun run' hr => ?_⟩
    · cases hentry.symm.trans hc
      cases hrun.symm.trans hr
      exact hs
    · cases hsome.symm.trans hr
      exact hd

theorem unusedPrice_self (tx : Transaction) : unusedPrice tx tx.gasLimit = 0 := by
  rw [unusedPrice, Nat.sub_self, Nat.zero_mul]

/-- A branch that ends with a refund fits exactly if what came before the refund does, and the
refund does. -/
theorem overflow_contract {y : Account} {l1 : Loop W.Module Database} {g : ℕ}
    (hcode : ¬ NoCode stx.transaction l) (hsums : SumsFit stx l)
    (hiff : l1.overflow = false ↔ ContractFits P W cfg block stx l)
    (hlt : y.balance + unusedPrice stx.transaction g < 2 ^ 128)
    (hrefund : refundGas stx.transaction g y l1 = some (x', l')) :
    l'.overflow = false ↔ BranchFits P W cfg block stx l g True := by
  rw [branchFits_iff_of_refund hcode hsums, overflow_refundGas hrefund, hiff]
  constructor
  · rintro ⟨hfits, hm, -⟩
    exact ⟨hm, hfits⟩
  · rintro ⟨hm, hfits⟩
    exact ⟨hfits, hm, hlt⟩

theorem branchFits_iff_of_refused (hcode : ¬ NoCode stx.transaction l) (hsums : SumsFit stx l) :
    BranchFits P W cfg block stx l stx.transaction.gasLimit True ↔
      ContractFits P W cfg block stx l := by
  rw [branchFits_iff_of_refund hcode hsums, unusedPrice_self]
  exact and_iff_right (by decide)

theorem overflow_executeDeploy (ht : stx.transaction.txType = .contractDeploy)
    (hpay : Payable stx l x)
    (h : executeDeploy P W cfg ord block stx.transaction stx.sender x (entered l stx) =
      some ((x', o), l')) :
    l'.overflow = false ↔ BranchFits P W cfg block stx l o.gasUsed True := by
  have hentry := contractEntry_deploy (l := l) ht
  have hcode : ¬ NoCode stx.transaction l := fun hno => by cases ht.symm.trans hno.1
  have hsums : SumsFit stx l := by simp only [SumsFit, ht]
  cases deployRun_of_eq_some P W cfg ord h with
  | refused hvm =>
    rw [branchFits_iff_of_refused hcode hsums,
      contractFits_of_run_none hentry (Entry.run_deploy hvm) (contractRun_refused ht hvm)]
    rfl
  | @done r s l1 _ _ hvm hflush hrefund =>
    have hbase : ∀ a, (withContract W stx.transaction r (afterVm W (entered l stx) s)).balance a =
        base l stx ⟨r.contractAddress, r.gasUsed, s.context⟩ a := by
      intro a
      unfold Loop.balance base
      rw [accounts_withContract, accountOf_insert]
      simp only [ht, true_and]
      split_ifs <;> rfl
    refine overflow_contract hcode hsums ?_ (hpay.debit_add_lt r.gasUsed) hrefund
    dsimp only
    rw [Bool.or_eq_false_iff, Account.debit_ovf, and_iff_left hpay.value_le,
      contractFits_of_run_some hentry (Entry.run_deploy hvm) (contractRun_deploy ht hvm),
      overflow_flush hflush]
    simp only [hbase]
    rfl

theorem overflow_executeCall (ht : stx.transaction.txType = .contractCall)
    (hpay : Payable stx l x)
    (h : executeCall P W cfg ord block stx.transaction stx.sender x (entered l stx) =
      some ((x', o), l')) :
    l'.overflow = false ↔ (entered l stx).overflow = false ∧
      BranchFits P W cfg block stx l o.gasUsed True := by
  have hsums : SumsFit stx l := by simp only [SumsFit, ht]
  -- a call that reaches the VM keeps the flag
  have hbranch : (l'.overflow = false ↔ BranchFits P W cfg block stx l o.gasUsed True) →
      (l'.overflow = false ↔ (entered l stx).overflow = false ∧
        BranchFits P W cfg block stx l o.gasUsed True) := fun hiff =>
    ⟨fun hf => ⟨(executeCall_branch P W cfg ord (X := fun _ => False) h).1.overflow hf,
      hiff.mp hf⟩, fun hf => hiff.mpr hf.2⟩
  cases callRun_of_eq_some P W cfg ord h with
  | noCode hcode =>
    have hno : NoCode stx.transaction l := ⟨ht, (codeHash_accountOf _ _).trans hcode⟩
    refine (and_iff_left ⟨fun hyes => absurd hno hyes, ?_, fun _ => hsums⟩).symm
    exact contractFits_of_none (contractEntry_noCode ht hcode) (contractRun_noCode ht hcode)
  | refused hcode hvm =>
    rw [accounts_entered] at hcode
    refine hbranch ?_
    rw [branchFits_iff_of_refused (not_noCode hcode) hsums,
      contractFits_of_run_none (contractEntry_call ht hcode) (Entry.run_call hvm)
        (contractRun_call_refused ht hcode hvm)]
    rfl
  | failed hcode hvm hst hrefund =>
    rw [accounts_entered] at hcode
    refine hbranch (overflow_contract (not_noCode hcode) hsums ?_ (hpay.balance_add_lt _) hrefund)
    rw [contractFits_of_run_none (contractEntry_call ht hcode) (Entry.run_call hvm)
      (contractRun_failed ht hcode hvm hst)]
    rfl
  | done hcode hvm hst hflush hrefund =>
    rw [accounts_entered] at hcode
    refine hbranch (overflow_contract (not_noCode hcode) hsums ?_ (hpay.balance_add_lt _) hrefund)
    have hnd : stx.transaction.txType ≠ .contractDeploy := by rw [ht]; decide
    rw [contractFits_of_run_some (contractEntry_call ht hcode) (Entry.run_call hvm)
      (contractRun_call ht hcode hvm hst), overflow_flush hflush]
    simp only [base, if_neg fun hd : _ ∧ _ => hnd hd.1]
    rfl

theorem overflow_executeType (hpay : Payable stx l x)
    (h : executeType P W cfg ord block stx x (entered l stx) = some ((x', o), l')) :
    l'.overflow = false ↔ (entered l stx).overflow = false ∧
      BranchFits P W cfg block stx l o.gasUsed True := by
  cases ht : stx.transaction.txType with
  | transfer => exact overflow_native (.inl ht) hpay h
  | stake => exact overflow_native (.inr (.inl ht)) hpay h
  | unstake => exact overflow_native (.inr (.inr ht)) hpay h
  | contractDeploy =>
    have hbranch := (executeType_branch P W cfg ord h).1.overflow
    unfold executeType at h
    rw [ht] at h
    have hiff := overflow_executeDeploy ht hpay h
    exact ⟨fun hf => ⟨hbranch hf, hiff.mp hf⟩, fun hf => hiff.mpr hf.2⟩
  | contractCall =>
    unfold executeType at h
    rw [ht] at h
    exact overflow_executeCall ht hpay h

/-! ### One transaction -/

theorem overflow_nonce {i : ℕ}
    (hn : stx.transaction.nonce ≠ (accountOf l.accounts stx.sender).nonce)
    (h : executeTx P W cfg ord block i stx l = some ((), l')) : l'.overflow = l.overflow := by
  unfold executeTx at h
  rw [bind_of_eq (getOrCreate_apply _ _), if_pos hn] at h
  obtain ⟨-, rfl⟩ := some_pair_inj h
  rfl

theorem overflow_insufficient {i : ℕ}
    (hn : stx.transaction.nonce = (accountOf l.accounts stx.sender).nonce)
    (hp : ¬ Passes l stx) (h : executeTx P W cfg ord block i stx l = some ((), l')) :
    l'.overflow = (l.overflow || stx.transaction.totalCost.ovf) := by
  have hb : ¬ stx.transaction.totalCost.val ≤ (accountOf l.accounts stx.sender).balance :=
    fun hb => hp ⟨hn, hb⟩
  unfold executeTx at h
  rw [bind_of_eq (getOrCreate_apply _ _), if_neg (not_not.mpr hn), bind_of_eq (arith_apply _ _),
    if_pos (by simpa [Account.hasSufficientBalance] using hb)] at h
  obtain ⟨-, rfl⟩ := some_pair_inj h
  rfl

theorem prepay_ovf {tx : Transaction} (htyped : Typed tx) {x : Account} :
    (prepay tx x).ovf = false ↔ tx.gasLimit * tx.gasPrice ≤ x.balance ∧ x.nonce + 1 < 2 ^ 64 := by
  unfold prepay
  rw [htyped.maxGasCost]
  show (false || ((x.debit (tx.gasLimit * tx.gasPrice)).ovf ||
    ((addU 64 x.nonce 1).ovf || false))) = false ↔ _
  rw [Bool.false_or, Bool.or_false, Bool.or_eq_false_iff, Account.debit_ovf, addU_ovf]

theorem overflow_entered (htyped : Typed stx.transaction) :
    (entered l stx).overflow = false ↔ l.overflow = false ∧
      exactCost stx.transaction < 2 ^ 128 ∧
      stx.transaction.gasLimit * stx.transaction.gasPrice ≤ l.balance stx.sender ∧
      (accountOf l.accounts stx.sender).nonce + 1 < 2 ^ 64 := by
  show (l.overflow || _ || _) = false ↔ _
  rw [Bool.or_eq_false_iff, Bool.or_eq_false_iff, htyped.totalCost_ovf, prepay_ovf htyped,
    and_assoc]
  rfl

theorem payable_prepay (htyped : Typed stx.transaction) (hwidth : l.balance stx.sender < 2 ^ 128)
    (hle : exactCost stx.transaction ≤ l.balance stx.sender)
    (hnonce : (accountOf l.accounts stx.sender).nonce + 1 < 2 ^ 64) :
    Payable stx l (prepay stx.transaction (accountOf l.accounts stx.sender)).val := by
  have hpaid : stx.transaction.gasLimit * stx.transaction.gasPrice ≤ l.balance stx.sender :=
    (Nat.le_add_left _ _).trans hle
  refine ⟨hle, hwidth, ?_⟩
  rw [(prepay_balance ((prepay_ovf htyped).mpr ⟨hpaid, hnonce⟩)).1]
  exact Nat.sub_add_cancel hpaid

theorem overflow_of_passes {i : ℕ} (htyped : Typed stx.transaction)
    (hwidth : l.balance stx.sender < 2 ^ 128) (hp : Passes l stx)
    (hcost : exactCost stx.transaction < 2 ^ 128)
    (h : executeTx P W cfg ord block i stx l = some ((), l'))
    (ho : l'.receipts = l.receipts ++ [receiptOf P block i stx o]) :
    l'.overflow = false ↔ l.overflow = false ∧ RunFits P W cfg block stx l o.gasUsed True := by
  obtain ⟨x, l1, hrun, rfl⟩ := executeTx_outcome hp h ho
  have hbranch := (executeType_branch P W cfg ord hrun).1
  have htotal : l1.totalGasUsed = l.totalGasUsed := hbranch.gas
  have hle : exactCost stx.transaction ≤ l.balance stx.sender := by
    have hcovered := hp.2
    rwa [htyped.totalCost_val hcost] at hcovered
  have hpaid : stx.transaction.gasLimit * stx.transaction.gasPrice ≤ l.balance stx.sender :=
    (Nat.le_add_left _ _).trans hle
  show (l1.overflow || (addU 64 l1.totalGasUsed o.gasUsed).ovf) = false ↔ _
  rw [Bool.or_eq_false_iff, addU_ovf, htotal]
  constructor
  · rintro ⟨hov1, hgas⟩
    obtain ⟨hov, -, -, hnonce⟩ := (overflow_entered htyped).mp (hbranch.overflow hov1)
    have hpay := payable_prepay htyped hwidth hle hnonce
    exact ⟨hov, hnonce, hgas, ((overflow_executeType hpay hrun).mp hov1).2⟩
  · rintro ⟨hov, hnonce, hgas, hfits⟩
    have hpay := payable_prepay htyped hwidth hle hnonce
    have hentered := (overflow_entered htyped).mpr ⟨hov, hcost, hpaid, hnonce⟩
    exact ⟨(overflow_executeType hpay hrun).mpr ⟨hentered, hfits⟩, hgas⟩

theorem overflow_executeTx {i : ℕ} {r : TransactionReceipt} (htyped : Typed stx.transaction)
    (hwidth : l.balance stx.sender < 2 ^ 128)
    (h : executeTx P W cfg ord block i stx l = some ((), l'))
    (hr : l'.receipts = l.receipts ++ [r]) :
    l'.overflow = false ↔ l.overflow = false ∧ TurnFits P W cfg block stx l r.gasUsed True := by
  by_cases hn : stx.transaction.nonce = (accountOf l.accounts stx.sender).nonce
  · unfold TurnFits
    rw [forall_prop_of_true hn]
    by_cases hp : Passes l stx
    · obtain ⟨o, ho⟩ := executeTx_receipt h
      obtain rfl := List.singleton_inj.mp (List.append_cancel_left (hr.symm.trans ho))
      have hiff := fun hcost => overflow_of_passes htyped hwidth hp hcost h ho
      have hle : exactCost stx.transaction < 2 ^ 128 →
          exactCost stx.transaction ≤ l.balance stx.sender := fun hcost => by
        have hcovered := hp.2
        rwa [htyped.totalCost_val hcost] at hcovered
      constructor
      · intro hov
        obtain ⟨x, l1, hrun, rfl⟩ := executeTx_outcome hp h ho
        have hbranch := (executeType_branch P W cfg ord hrun).1
        have hcost := ((overflow_entered htyped).mp
          (hbranch.overflow (Bool.or_eq_false_iff.mp hov).1)).2.1
        obtain ⟨hovl, hfits⟩ := (hiff hcost).mp hov
        exact ⟨hovl, hcost, fun _ => hfits⟩
      · rintro ⟨hov, hcost, hfits⟩
        exact (hiff hcost).mpr ⟨hov, hfits (hle hcost)⟩
    · rw [overflow_insufficient hn hp h, Bool.or_eq_false_iff, htyped.totalCost_ovf]
      refine and_congr_right fun _ => ⟨fun hcost => ⟨hcost, fun hle => ?_⟩, And.left⟩
      rw [← htyped.totalCost_val hcost] at hle
      exact absurd ⟨hn, hle⟩ hp
  · rw [overflow_nonce hn h]
    exact (and_iff_left fun hyes => absurd hyes hn).symm

theorem TurnFits.mono {gasUsed : ℕ} {late late' : Prop}
    (h : TurnFits P W cfg block stx l gasUsed late) (hlate : late' → late ∨ l.wealth < 2 ^ 127) :
    TurnFits P W cfg block stx l gasUsed late' := by
  intro hn
  obtain ⟨hcost, hrun⟩ := h hn
  refine ⟨hcost, fun hle => ?_⟩
  obtain ⟨hnonce, hgas, hrefund, hcontract, hsums⟩ := hrun hle
  refine ⟨hnonce, hgas, hrefund, hcontract, fun hl => ?_⟩
  rcases hlate hl with hl | hw
  · exact hsums hl
  · exact sumsFit_of_wealth hle hw

theorem not_runsContract_iff : ¬ RunsContract stx ↔ Native stx := by
  unfold RunsContract Native
  cases stx.transaction.txType <;> simp

theorem wealth_le_of_native {i : ℕ} (hn : Native stx)
    (h : executeTx P W cfg ord block i stx l = some ((), l')) (hov : l'.overflow = false) :
    l'.wealth ≤ l.wealth := by
  by_cases hp : Passes l stx
  · have hstep := wealth_executeTx hn hp h hov
    omega
  · exact (wealth_skip hp h).le

end

end Exec

/-! ### Blocks -/

section
variable (P : Primitives) (W : Wasmtime) (cfg : VmConfig) (ord : ℕ → HashOrders)
  (cache : HashMap Blake3Hash W.Module) (s : ChainState Database) (block : Block)

/-- **The arithmetic of a block is safe**: no operation leaves the range of its type, and a
transaction whose exact cost is above the balance is not executed. -/
structure ArithmeticSafe (a : Applied W.Module Database) : Prop where
  height : block.header.parentHash = s.head.hash P → (addU 64 s.height 1).ovf = false
  overflow : a.overflow = false
  rejected : Extends P s block → ∀ i stx l l',
    Exec.AtTurn P W cfg ord block (s.toLoop cache) i stx l l' →
    l.balance stx.sender < exactCost stx.transaction → ¬ Exec.Passes l stx

/-- **What a block needs for that**: a height that is not the last one, and of every transaction
what it needs at its turn. The sums of a transaction are asked for only after a contract transaction
that got the wealth above the bound. -/
structure BlockFits : Prop where
  height : block.header.parentHash = s.head.hash P → s.height + 1 < 2 ^ 64
  turns : Extends P s block → ∀ i stx l l' r,
    Exec.AtTurn P W cfg ord block (s.toLoop cache) i stx l l' → l'.receipts = l.receipts ++ [r] →
    Exec.TurnFits P W cfg block stx l r.gasUsed
      ((∃ stx' ∈ block.transactions.take i, Exec.RunsContract stx') ∧ 2 ^ 127 ≤ l.wealth)

end

section
variable {P : Primitives} {W : Wasmtime} {cfg : VmConfig} {ord : ℕ → HashOrders}
  {cache : HashMap Blake3Hash W.Module} {s : ChainState Database} {block : Block}
  {a : Applied W.Module Database}

theorem overflow_of_not_extends (hext : ¬ Extends P s block)
    (h : applyBlock P W cfg ord cache s block = some a)
    (hheight : block.header.parentHash = s.head.hash P → (addU 64 s.height 1).ovf = false) :
    a.overflow = false := by
  unfold applyBlock at h
  dsimp only at h
  split_ifs at h with hp hn
  · obtain rfl := Option.some.inj h
    rfl
  · obtain rfl := Option.some.inj h
    exact hheight (not_not.mp hp)
  · exact absurd ⟨not_not.mp hp, not_not.mp hn⟩ hext

theorem wealth_toLoop : (s.toLoop cache : Loop W.Module Database).wealth = wealth s := by
  unfold wealth Loop.wealth
  rw [Loop.accounts_toLoop]
  rfl

theorem inWidth_toLoop (hw : wealth s < 2 ^ 127) :
    (s.toLoop cache : Loop W.Module Database).InWidth := by
  intro a
  have hle := Exec.balance_add_stakeTotal_le (s.toLoop cache : Loop W.Module Database) a
  rw [wealth_toLoop] at hle
  omega

/-- **The loop stays in range** as long as every transaction has what it needs; and until a contract
is executed, the wealth does not grow. -/
theorem BlockFits.loop (hfits : BlockFits P W cfg ord cache s block) (hext : Extends P s block)
    (hw : wealth s < 2 ^ 127) (htyped : ∀ stx ∈ block.transactions, Typed stx.transaction) :
    ∀ n ≤ block.transactions.length, ∀ l, Exec.executeTxs P W cfg ord block 0
        (block.transactions.take n) (s.toLoop cache) = some ((), l) →
      l.overflow = false ∧
        ((∀ stx ∈ block.transactions.take n, ¬ Exec.RunsContract stx) → l.wealth ≤ wealth s) := by
  intro n
  induction n with
  | zero =>
    intro _ l h
    obtain ⟨-, rfl⟩ := pure_eq_some h
    exact ⟨rfl, fun _ => wealth_toLoop.le⟩
  | succ n ih =>
    intro hn l' h
    have hi : block.transactions[n]? = some block.transactions[n] := List.getElem?_eq_getElem hn
    obtain ⟨l, hturn⟩ := Exec.exists_turn_of_take hi h
    obtain ⟨hov, hwealth⟩ := ih (by omega) l hturn.before
    obtain ⟨o, ho⟩ := Exec.executeTx_receipt hturn.step
    have hturnFits : Exec.TurnFits P W cfg block block.transactions[n] l o.gasUsed True := by
      refine (hfits.turns hext _ _ _ _ _ hturn ho).mono fun _ => ?_
      -- the bound is lost only after a contract
      by_cases hsome : ∃ stx ∈ block.transactions.take n, Exec.RunsContract stx
      · exact (Nat.lt_or_ge l.wealth (2 ^ 127)).symm.imp_left fun hge => ⟨hsome, hge⟩
      · have hle := hwealth fun stx hstx hc => hsome ⟨stx, hstx, hc⟩
        exact .inr (lt_of_le_of_lt hle hw)
    have hov' : l'.overflow = false :=
      (Exec.overflow_executeTx (htyped _ (List.getElem_mem hn))
        (hturn.inWidth htyped (inWidth_toLoop hw) _) hturn.step ho).mpr ⟨hov, hturnFits⟩
    refine ⟨hov', fun hnative => ?_⟩
    rw [List.take_add_one, hi, Option.toList_some] at hnative
    have hle := hwealth fun stx hstx => hnative stx (List.mem_append_left _ hstx)
    have hlast : Native block.transactions[n] :=
      Exec.not_runsContract_iff.mp (hnative _ (List.mem_append_right _ (List.mem_singleton_self _)))
    exact (Exec.wealth_le_of_native hlast hturn.step hov').trans hle

/-- **When the arithmetic of a block is safe**: for every state whose balances and stakes together
are below `2 ^ 127`, exactly if the block fits. -/
theorem arithmeticSafe_iff (hw : wealth s < 2 ^ 127)
    (htyped : ∀ stx ∈ block.transactions, Typed stx.transaction)
    (h : applyBlock P W cfg ord cache s block = some a) :
    ArithmeticSafe P W cfg ord cache s block a ↔ BlockFits P W cfg ord cache s block := by
  by_cases hext : Extends P s block
  · rw [applyBlock_of_extends hext] at h
    obtain ⟨⟨_, lend⟩, hloop, rfl⟩ := Option.map_eq_some_iff.mp h
    constructor
    · rintro ⟨hheight, hov, -⟩
      refine ⟨fun hp => addU_ovf.mp (hheight hp), fun _ i stx l l' r hturn hr => ?_⟩
      have hov' : l'.overflow = false := (Exec.executeTxs_effect (hturn.rest hloop)).overflow hov
      have hmem : stx ∈ block.transactions := List.mem_of_getElem? hturn.tx
      have hturnFits := ((Exec.overflow_executeTx (htyped stx hmem)
        (hturn.inWidth htyped (inWidth_toLoop hw) _) hturn.step hr).mp hov').2
      exact hturnFits.mono fun _ => .inl trivial
    · intro hfits
      have hrun := hloop
      rw [← List.take_length (l := block.transactions)] at hrun
      refine ⟨fun hp => addU_ovf.mpr (hfits.height hp),
        (hfits.loop hext hw htyped _ le_rfl _ hrun).1, fun _ i stx l l' hturn hlt hp => ?_⟩
      have hmem : stx ∈ block.transactions := List.mem_of_getElem? hturn.tx
      obtain ⟨o, ho⟩ := Exec.executeTx_receipt hturn.step
      have hcost := (hfits.turns hext _ _ _ _ _ hturn ho hp.1).1
      have hcovered := hp.2
      rw [(htyped stx hmem).totalCost_val hcost] at hcovered
      exact absurd hcovered (Nat.not_le.mpr hlt)
  · constructor
    · rintro ⟨hheight, -, -⟩
      exact ⟨fun hp => addU_ovf.mp (hheight hp), fun hyes => absurd hyes hext⟩
    · rintro ⟨hheight, -⟩
      have hnext := fun hp => addU_ovf.mpr (hheight hp)
      exact ⟨hnext, overflow_of_not_extends hext h hnext, fun hyes => absurd hyes hext⟩

end

/-! ### Transfers on the small chain -/

namespace Small

def sentTx (value : ℕ) : SignedTransaction :=
  tx 2 0 .transfer (some ((KeyPair.small 3).address .small)) value []

def sentBlock (value : ℕ) : Block := next genesisBlock [sentTx value]

theorem typed_sentBlock {value : ℕ} (h : value < 2 ^ 128) :
    ∀ stx ∈ (sentBlock value).transactions, Typed stx.transaction := by
  intro stx hstx
  obtain rfl := List.mem_singleton.mp hstx
  exact ⟨h, show 50000 < 2 ^ 64 by decide, show 1 < 2 ^ 64 by decide⟩

theorem wealth_start_lt : wealth start < 2 ^ 127 := by decide +kernel

end Small

/-- A transfer of 7 is in range, and so it has what it needs. -/
theorem blockFits_transfer : wealth Small.start < 2 ^ 127 ∧
    ∃ a, Small.apply Small.start (Small.sentBlock 7) = some a ∧
      ArithmeticSafe .small .small .default (fun _ => .listed) ∅ Small.start (Small.sentBlock 7) a ∧
      BlockFits .small .small .default (fun _ => .listed) ∅ Small.start (Small.sentBlock 7) := by
  obtain ⟨a, rs, ha, hok, hov⟩ := Small.apply_ok Small.start (Small.sentBlock 7)
    (p := fun a => a.overflow = false) (by decide +kernel)
  have hsafe : ArithmeticSafe .small .small .default (fun _ => .listed) ∅ Small.start
      (Small.sentBlock 7) a := by
    refine ⟨fun _ => by decide, hov, fun _ i stx l l' hturn hlt => ?_⟩
    -- the block has one transaction, and the loop is at its start there
    obtain ⟨hi, hstx⟩ := List.getElem?_eq_some_iff.mp hturn.tx
    obtain rfl : i = 0 := Nat.lt_one_iff.mp hi
    obtain rfl : Small.sentTx 7 = stx := hstx
    obtain ⟨-, rfl⟩ := pure_eq_some hturn.before
    revert hlt
    decide +kernel
  exact ⟨Small.wealth_start_lt, a, ha, hsafe,
    (arithmeticSafe_iff Small.wealth_start_lt (Small.typed_sentBlock (by decide)) ha).mp hsafe⟩

/-- **A transfer of more than there is**: the cost wraps to 49999, the sender has that, and the
recipient gets the value. -/
theorem not_arithmeticSafe_huge_value :
    Reachable .small .small .default Small.genesis Small.start ∧
    wealth Small.start < 2 ^ 127 ∧
    (∀ stx ∈ (Small.sentBlock (2 ^ 128 - 1)).transactions,
      Typed stx.transaction ∧ stx.transaction.validateBasic = .ok ()) ∧
    ∃ a rs, Small.apply Small.start (Small.sentBlock (2 ^ 128 - 1)) = some a ∧ a.result = .ok rs ∧
      a.overflow = true ∧
      (accountOf a.state.storage.accounts ((KeyPair.small 3).address .small)).balance =
        2 ^ 128 - 1 ∧
      ¬ ArithmeticSafe .small .small .default (fun _ => .listed) ∅ Small.start
        (Small.sentBlock (2 ^ 128 - 1)) a := by
  obtain ⟨a, rs, ha, hok, hov, hbalance⟩ := Small.apply_ok Small.start
    (Small.sentBlock (2 ^ 128 - 1)) (p := fun a => a.overflow = true ∧
      (accountOf a.state.storage.accounts ((KeyPair.small 3).address .small)).balance =
        2 ^ 128 - 1) (by decide +kernel)
  refine ⟨Small.reachable_start, Small.wealth_start_lt, fun stx hstx => ?_, a, rs, ha, hok, hov,
    hbalance, fun hsafe => ?_⟩
  · refine ⟨Small.typed_sentBlock (by decide) stx hstx, ?_⟩
    obtain rfl := List.mem_singleton.mp hstx
    rfl
  · exact absurd (hov.symm.trans hsafe.overflow) nofun

end Rustchain.Consensus
