import Mathlib.Data.Int.ModEq
import Rustchain.Consensus.Charges
import Rustchain.Consensus.ContractBalances
import Rustchain.Consensus.Turns
import Rustchain.Vm.GasAccounting

/-! # The gas that is charged and the gas that is reported

The sender pays for all of its gas limit first and gets the unused gas back, as a product in `u64`;
the gas used is what the receipt says. Transfers and staking use the base gas, whatever the limit
is, and a call of an address without code gets nothing back. -/

namespace Rustchain.Consensus

open Rustchain.Core Storage Vm Lib.Machine Lib.Maps Lib.Partial

namespace Exec

/-- What leaves the balance of the sender besides gas. -/
def valueMoved (tx : Transaction) (status : TxStatus) : ℤ :=
  match tx.txType with
  | .transfer | .stake => tx.value
  | .contractDeploy => if status = .success then tx.value else 0
  | .contractCall => 0
  | .unstake => if status = .success then -tx.value else 0

/-- **The amount debited for gas**: what the balance of the sender loses besides the value. Balances
are of type `u128`. -/
def gasDebit {M : Type} (stx : SignedTransaction) (l l' : Loop M Database) (status : TxStatus) :
    ℤ :=
  ((l.balance stx.sender : ℤ) - valueMoved stx.transaction status - l'.balance stx.sender) %
    2 ^ 128

/-- **The gas charged is the gas reported**, and not above the limit. -/
structure GasExact {M : Type} (stx : SignedTransaction) (l l' : Loop M Database)
    (r : TransactionReceipt) : Prop where
  debit : gasDebit stx l l' r.status = r.gasUsed * stx.transaction.gasPrice
  used_le : r.gasUsed ≤ stx.transaction.gasLimit

def NoCode {M : Type} (tx : Transaction) (l : Loop M Database) : Prop :=
  tx.txType = .contractCall ∧
    (accountOf l.accounts (tx.toAddr.getD Address.zero)).codeHash = none

instance {M : Type} (tx : Transaction) (l : Loop M Database) : Decidable (NoCode tx l) := by
  unfold NoCode; infer_instance

theorem not_noCode {M : Type} {tx : Transaction} {l : Loop M Database} {codeHash : Blake3Hash}
    (hcode : (l.accounts.lookup (tx.toAddr.getD Address.zero)).bind (·.codeHash) =
      some codeHash) : ¬ NoCode tx l := by
  rintro ⟨-, hno⟩
  rw [codeHash_accountOf, hcode] at hno
  cases hno

/-- The unused gas at the gas price, in `u64`. -/
def paidBack (tx : Transaction) (gasUsed : ℕ) : ℕ :=
  (tx.gasLimit - gasUsed) * tx.gasPrice % 2 ^ 64

def refunded {M : Type} (tx : Transaction) (l : Loop M Database) (gasUsed : ℕ) : ℕ :=
  if NoCode tx l then 0 else paidBack tx gasUsed

/-- **What a transaction needs for that.** The gas used by an execution is not above the limit
anyway. -/
def GasFits {M : Type} (tx : Transaction) (l : Loop M Database) (gasUsed : ℕ) : Prop :=
  match tx.txType with
  | .transfer | .stake | .unstake =>
    baseGas ≤ tx.gasLimit ∧ (tx.gasLimit - baseGas) * tx.gasPrice < 2 ^ 64
  | .contractDeploy => (tx.gasLimit - gasUsed) * tx.gasPrice < 2 ^ 64
  | .contractCall =>
    if NoCode tx l then baseGas ≤ tx.gasLimit ∧ (tx.gasLimit - baseGas) * tx.gasPrice = 0
    else (tx.gasLimit - gasUsed) * tx.gasPrice < 2 ^ 64

/-! ### Balances, modulo the type -/

theorem debit_modEq (x : Account) {n : ℕ} (hn : n < 2 ^ 128) :
    ((x.debit n).val.balance : ℤ) ≡ x.balance - n [ZMOD 2 ^ 128] := by
  show ((subU 128 x.balance n).val : ℤ) ≡ _ [ZMOD _]
  unfold subU
  split_ifs with hle
  · dsimp only
    rw [Nat.cast_sub hle]
  · refine Int.modEq_iff_dvd.mpr ⟨-1, ?_⟩
    dsimp only
    omega

theorem credit_modEq (x : Account) (n : ℕ) :
    ((x.credit n).val.balance : ℤ) ≡ x.balance + n [ZMOD 2 ^ 128] := by
  show ((addU 128 x.balance n).val : ℤ) ≡ _ [ZMOD _]
  unfold addU
  push_cast
  exact Int.mod_modEq _ _

/-! ### Branches -/

section
variable {M : Type} {tx : Transaction} {l l' : Loop M Database} {x x' : Account} {o : Outcome}

/-- What a branch leaves to the sender: the value is gone, and some gas is paid back. -/
def Leaves (tx : Transaction) (x : Account) (refund : ℕ → ℕ) (r : Account × Outcome) : Prop :=
  (r.1.balance : ℤ) ≡ x.balance - valueMoved tx r.2.status + refund r.2.gasUsed [ZMOD 2 ^ 128]

theorem refundGas_modEq {gasUsed : ℕ} (h : refundGas tx gasUsed x l = some (x', l')) :
    (x'.balance : ℤ) ≡ x.balance + paidBack tx gasUsed [ZMOD 2 ^ 128] := by
  rw [refundGas_apply] at h
  obtain ⟨rfl, -⟩ := some_pair_inj h
  exact credit_modEq x _

theorem leaves_transfer (htyped : Typed tx) (ht : tx.txType = .transfer)
    (h : executeTransfer tx x l = some ((x', o), l')) : Leaves tx x (paidBack tx) (x', o) := by
  obtain ⟨rfl, hrefund⟩ := executeTransfer_run h
  unfold Leaves valueMoved
  rw [ht]
  exact (refundGas_modEq hrefund).trans ((debit_modEq x htyped.value_lt).add_right _)

theorem leaves_stake {stx : SignedTransaction} (htyped : Typed stx.transaction)
    (ht : stx.transaction.txType = .stake) (h : executeStake stx x l = some ((x', o), l')) :
    Leaves stx.transaction x (paidBack stx.transaction) (x', o) := by
  obtain ⟨rfl, vi, hrefund⟩ := executeStake_run h
  unfold Leaves valueMoved
  rw [ht]
  exact (refundGas_modEq hrefund).trans ((debit_modEq x htyped.value_lt).add_right _)

theorem leaves_unstake {stx : SignedTransaction} (ht : stx.transaction.txType = .unstake)
    (h : executeUnstake stx x l = some ((x', o), l')) :
    Leaves stx.transaction x (paidBack stx.transaction) (x', o) := by
  unfold Leaves valueMoved
  rw [ht]
  cases unstakeRun_of_eq_some h with
  | refused _ hrefund =>
    -- a withdrawal that fails only gets the unused gas back
    dsimp only
    rw [if_neg nofun, sub_zero]
    exact refundGas_modEq hrefund
  | done _ _ hrefund =>
    dsimp only
    rw [if_pos rfl, sub_neg_eq_add]
    exact (refundGas_modEq hrefund).trans ((credit_modEq x _).add_right _)

end

section
variable {P : Primitives} {W : Wasmtime} {cfg : VmConfig} {ord : HashOrders} {block : Block}
  {stx : SignedTransaction} {l l' : Loop W.Module Database} {x x' : Account} {o : Outcome}

variable {tx : Transaction}

theorem leaves_deploy {sender : Address} (htyped : Typed tx) (ht : tx.txType = .contractDeploy)
    (h : executeDeploy P W cfg ord block tx sender x l = some ((x', o), l')) :
    Leaves tx x (paidBack tx) (x', o) ∧ o.gasUsed ≤ tx.gasLimit := by
  unfold Leaves valueMoved
  rw [ht]
  dsimp only
  cases deployRun_of_eq_some P W cfg ord h with
  | refused =>
    refine ⟨?_, le_rfl⟩
    rw [if_neg nofun, sub_zero, paidBack, Nat.sub_self, Nat.zero_mul]
    simp
  | done hvm _ hrefund =>
    rw [if_pos rfl]
    exact ⟨(refundGas_modEq hrefund).trans ((debit_modEq x htyped.value_lt).add_right _),
      Entry.run_gasUsed_le htyped.gasLimit_lt rfl (Entry.run_deploy hvm)⟩

theorem leaves_call {sender : Address} (htyped : Typed tx) (ht : tx.txType = .contractCall)
    (h : executeCall P W cfg ord block tx sender x l = some ((x', o), l')) :
    Leaves tx x (refunded tx l) (x', o) ∧
      (NoCode tx l ∧ o.gasUsed = baseGas ∨ ¬ NoCode tx l ∧ o.gasUsed ≤ tx.gasLimit) := by
  unfold Leaves valueMoved refunded
  rw [ht]
  dsimp only
  rw [sub_zero]
  cases callRun_of_eq_some P W cfg ord h with
  | noCode hcode =>
    have hno : NoCode tx l := ⟨ht, (codeHash_accountOf _ _).trans hcode⟩
    rw [if_pos hno]
    exact ⟨by simp, .inl ⟨hno, rfl⟩⟩
  | refused hcode =>
    rw [if_neg (not_noCode hcode), paidBack, Nat.sub_self, Nat.zero_mul]
    exact ⟨by simp, .inr ⟨not_noCode hcode, le_rfl⟩⟩
  | failed hcode hvm _ hrefund =>
    rw [if_neg (not_noCode hcode)]
    exact ⟨refundGas_modEq hrefund, .inr ⟨not_noCode hcode,
      Entry.run_gasUsed_le htyped.gasLimit_lt rfl (Entry.run_call hvm)⟩⟩
  | done hcode hvm _ _ hrefund =>
    rw [if_neg (not_noCode hcode)]
    exact ⟨refundGas_modEq hrefund, .inr ⟨not_noCode hcode,
      Entry.run_gasUsed_le htyped.gasLimit_lt rfl (Entry.run_call hvm)⟩⟩

theorem refunded_of_ne {M : Type} (l : Loop M Database) (h : tx.txType ≠ .contractCall) :
    refunded tx l = paidBack tx := by
  funext gasUsed
  exact if_neg fun hno => h hno.1

theorem leaves_executeType (htyped : Typed stx.transaction)
    (h : executeType P W cfg ord block stx x l = some ((x', o), l')) :
    Leaves stx.transaction x (refunded stx.transaction l) (x', o) := by
  unfold executeType at h
  cases ht : stx.transaction.txType with
  | transfer =>
    rw [ht] at h
    rw [refunded_of_ne l (by rw [ht]; decide)]
    exact leaves_transfer htyped ht h
  | contractDeploy =>
    rw [ht] at h
    rw [refunded_of_ne l (by rw [ht]; decide)]
    exact (leaves_deploy htyped ht h).1
  | contractCall =>
    rw [ht] at h
    exact (leaves_call htyped ht h).1
  | stake =>
    rw [ht] at h
    rw [refunded_of_ne l (by rw [ht]; decide)]
    exact leaves_stake htyped ht h
  | unstake =>
    rw [ht] at h
    rw [refunded_of_ne l (by rw [ht]; decide)]
    exact leaves_unstake ht h

/-! ### One transaction -/

theorem paidBack_eq_iff {gasUsed : ℕ} :
    paidBack tx gasUsed = (tx.gasLimit - gasUsed) * tx.gasPrice ↔
      (tx.gasLimit - gasUsed) * tx.gasPrice < 2 ^ 64 :=
  Nat.mod_eq_iff_lt (Nat.two_pow_pos 64).ne'

theorem gasFits_iff (htyped : Typed stx.transaction)
    (h : executeType P W cfg ord block stx x l = some ((x', o), l')) :
    GasFits stx.transaction l o.gasUsed ↔ o.gasUsed ≤ stx.transaction.gasLimit ∧
      refunded stx.transaction l o.gasUsed =
        (stx.transaction.gasLimit - o.gasUsed) * stx.transaction.gasPrice := by
  unfold executeType at h
  unfold GasFits
  cases ht : stx.transaction.txType with
  | transfer =>
    rw [ht] at h
    rw [refunded_of_ne l (by rw [ht]; decide), executeTransfer_gas h, paidBack_eq_iff]
  | stake =>
    rw [ht] at h
    rw [refunded_of_ne l (by rw [ht]; decide), executeStake_gas h, paidBack_eq_iff]
  | unstake =>
    rw [ht] at h
    rw [refunded_of_ne l (by rw [ht]; decide), executeUnstake_gas h, paidBack_eq_iff]
  | contractDeploy =>
    rw [ht] at h
    rw [refunded_of_ne l (by rw [ht]; decide), paidBack_eq_iff]
    exact (and_iff_right (leaves_deploy htyped ht h).2).symm
  | contractCall =>
    rw [ht] at h
    unfold refunded
    rcases (leaves_call htyped ht h).2 with ⟨hno, hgas⟩ | ⟨hcode, hle⟩
    · simp only [if_pos hno, hgas]
      rw [eq_comm]
    · simp only [if_neg hcode, paidBack_eq_iff]
      exact (and_iff_right hle).symm

theorem paidBack_le (tx : Transaction) (gasUsed : ℕ) :
    paidBack tx gasUsed ≤ tx.gasLimit * tx.gasPrice :=
  calc paidBack tx gasUsed ≤ (tx.gasLimit - gasUsed) * tx.gasPrice := Nat.mod_le _ _
    _ ≤ tx.gasLimit * tx.gasPrice := Nat.mul_le_mul_right _ (Nat.sub_le _ _)

theorem refunded_le {M : Type} (tx : Transaction) (l : Loop M Database) (gasUsed : ℕ) :
    refunded tx l gasUsed ≤ tx.gasLimit * tx.gasPrice := by
  unfold refunded
  split_ifs
  · exact Nat.zero_le _
  · exact paidBack_le tx gasUsed

theorem prepay_modEq (htyped : Typed tx) (x : Account) :
    ((prepay tx x).val.balance : ℤ) ≡
      x.balance - (tx.gasLimit * tx.gasPrice : ℕ) [ZMOD 2 ^ 128] := by
  unfold prepay
  rw [htyped.maxGasCost]
  exact debit_modEq x htyped.gasCost_lt

theorem gasDebit_eq (i : ℕ) {l1 : Loop W.Module Database} (htyped : Typed stx.transaction)
    (h : executeType P W cfg ord block stx
      (prepay stx.transaction (accountOf l.accounts stx.sender)).val (entered l stx) =
        some ((x', o), l1)) :
    gasDebit stx l (finished l1 stx.sender x' o.gasUsed (receiptOf P block i stx o)) o.status =
      (stx.transaction.gasLimit * stx.transaction.gasPrice : ℕ) -
        (refunded stx.transaction l o.gasUsed : ℤ) := by
  have hleaves := leaves_executeType htyped h
  have hprepaid := prepay_modEq htyped (accountOf l.accounts stx.sender)
  have hle := refunded_le stx.transaction l o.gasUsed
  have hlt := htyped.gasCost_lt
  unfold Leaves at hleaves
  -- the loop state has the same accounts when the branch is entered
  have hbalance : (x'.balance : ℤ) ≡ l.balance stx.sender -
      (stx.transaction.gasLimit * stx.transaction.gasPrice : ℕ) -
      valueMoved stx.transaction o.status + refunded stx.transaction l o.gasUsed [ZMOD 2 ^ 128] :=
    hleaves.trans ((hprepaid.sub_right _).add_right _)
  have hdebit : (l.balance stx.sender : ℤ) - valueMoved stx.transaction o.status - x'.balance ≡
      (stx.transaction.gasLimit * stx.transaction.gasPrice : ℕ) -
        (refunded stx.transaction l o.gasUsed : ℤ) [ZMOD 2 ^ 128] := by
    have hsub := Int.ModEq.sub_left
      ((l.balance stx.sender : ℤ) - valueMoved stx.transaction o.status) hbalance
    rwa [show ∀ b m c r : ℤ, b - m - (b - c - m + r) = c - r by omega] at hsub
  unfold gasDebit
  rw [balance_finished_self]
  exact Eq.trans hdebit (Int.emod_eq_of_lt (by omega) (by omega))

theorem charge_eq_iff {limit price used refund : ℕ} (h : used ≤ limit) :
    ((limit * price : ℕ) : ℤ) - refund = used * price ↔ refund = (limit - used) * price := by
  have hsplit : limit * price = used * price + (limit - used) * price := by
    rw [← Nat.add_mul, Nat.add_sub_cancel' h]
  have hcast : ((used * price : ℕ) : ℤ) = used * price := Nat.cast_mul used price
  omega

theorem gasExact_of_passes {i : ℕ} (htyped : Typed stx.transaction) (hp : Passes l stx)
    (h : executeTx P W cfg ord block i stx l = some ((), l'))
    (ho : l'.receipts = l.receipts ++ [receiptOf P block i stx o]) :
    GasExact stx l l' (receiptOf P block i stx o) ↔ GasFits stx.transaction l o.gasUsed := by
  obtain ⟨x, l1, hrun, rfl⟩ := executeTx_outcome hp h ho
  have hdebit := gasDebit_eq i htyped hrun
  refine Iff.trans ?_ (gasFits_iff htyped hrun).symm
  constructor
  · rintro ⟨hexact, hused⟩
    exact ⟨hused, (charge_eq_iff hused).mp (hdebit.symm.trans hexact)⟩
  · rintro ⟨hused, hrefund⟩
    exact ⟨hdebit.trans ((charge_eq_iff hused).mpr hrefund), hused⟩

end

end Exec

/-- **Where the gas charged is the gas reported**: at the turn of every transaction of an applied
block that passes the checks, exactly if the base gas of a transaction without execution is within
the limit and the refund is one, in `u64`. -/
theorem gasExact_iff {P : Primitives} {W : Wasmtime} {cfg : VmConfig} {ord : ℕ → HashOrders}
    {cache : HashMap Blake3Hash W.Module} {s : ChainState Database} {block : Block}
    {a : Applied W.Module Database} {rs : List TransactionReceipt}
    (h : applyBlock P W cfg ord cache s block = some a) (hok : a.result = .ok rs) {i : ℕ}
    {stx : SignedTransaction} (hi : block.transactions[i]? = some stx)
    (htyped : Typed stx.transaction) :
    ∃ l l' r, Exec.AtTurn P W cfg ord block (s.toLoop cache) i stx l l' ∧ rs[i]? = some r ∧
      (Exec.Passes l stx →
        (Exec.GasExact stx l l' r ↔ Exec.GasFits stx.transaction l r.gasUsed)) := by
  obtain ⟨l, l', o, hturn, hreceipts, hr⟩ := exists_turn_of_applied h hok hi
  exact ⟨l, l', _, hturn, hr, fun hp => Exec.gasExact_of_passes htyped hp hturn.step hreceipts⟩

/-! ### Transactions on the small chain -/

namespace Small

def pricedTx (txType : TxType) (gasLimit : ℕ) : SignedTransaction :=
  .new .small ⟨1, 0, (KeyPair.small 2).address .small, some ((KeyPair.small 3).address .small), 7,
    txType, gasLimit, 1, [], 0⟩ (KeyPair.small 2)

def pricedBlock (txType : TxType) (gasLimit : ℕ) : Block :=
  next genesisBlock [pricedTx txType gasLimit]

def firstLoop : Loop Small.Module Database := start.toLoop ∅

theorem first_turn {s : ChainState Database} {block : Block} {stx : SignedTransaction}
    {a : Applied Small.Module Database} {rs : List TransactionReceipt}
    (ha : apply s block = some a) (hok : a.result = .ok rs)
    (hi : block.transactions[0]? = some stx) :
    ∃ l' o, Exec.AtTurn .small .small .default (fun _ => .listed) block (s.toLoop ∅) 0 stx
        (s.toLoop ∅) l' ∧ l'.receipts = (s.toLoop (∅ : HashMap Blake3Hash Small.Module)).receipts ++
          [receiptOf .small block 0 stx o] ∧
      rs[0]? = some (receiptOf .small block 0 stx o) := by
  obtain ⟨l, l', o, hturn, hreceipts, hr⟩ := exists_turn_of_applied ha hok hi
  obtain ⟨-, rfl⟩ := pure_eq_some hturn.before
  exact ⟨l', o, hturn, hreceipts, hr⟩

end Small

/-- A transfer with enough gas is charged what it reports. -/
theorem gasExact_transfer : ∃ a rs l l' r,
    Small.apply Small.start (Small.pricedBlock .transfer 50000) = some a ∧ a.result = .ok rs ∧
    Exec.AtTurn .small .small .default (fun _ => .listed) (Small.pricedBlock .transfer 50000)
      (Small.start.toLoop ∅) 0 (Small.pricedTx .transfer 50000) l l' ∧ rs[0]? = some r ∧
    Exec.Passes l (Small.pricedTx .transfer 50000) ∧
    Exec.GasExact (Small.pricedTx .transfer 50000) l l' r := by
  obtain ⟨a, rs, ha, hok, -⟩ := Small.apply_ok Small.start (Small.pricedBlock .transfer 50000)
    (p := fun _ => True) (by decide +kernel)
  obtain ⟨l, l', r, hturn, hr, hiff⟩ := gasExact_iff ha hok
    (show (Small.pricedBlock .transfer 50000).transactions[0]? =
      some (Small.pricedTx .transfer 50000) from rfl) ⟨by decide, by decide, by decide⟩
  obtain ⟨-, rfl⟩ := pure_eq_some hturn.before
  have hp : Exec.Passes Small.firstLoop (Small.pricedTx .transfer 50000) := by decide +kernel
  exact ⟨a, rs, _, l', r, ha, hok, hturn, hr, hp, (hiff hp).mpr ⟨by decide, by decide⟩⟩

theorem Small.not_gasExact_priced (txType : TxType) {gasLimit : ℕ} (hlimit : gasLimit < 2 ^ 64)
    (hcheck : (apply start (pricedBlock txType gasLimit)).map
      (fun a => decide (a.result.toBool ∧ True)) = some true)
    (hp : Exec.Passes firstLoop (pricedTx txType gasLimit))
    (hnot : ∀ gasUsed, ¬ Exec.GasFits (pricedTx txType gasLimit).transaction firstLoop gasUsed) :
    ∃ a rs l' r, apply start (pricedBlock txType gasLimit) = some a ∧ a.result = .ok rs ∧
      Exec.AtTurn .small .small .default (fun _ => .listed) (pricedBlock txType gasLimit) firstLoop
        0 (pricedTx txType gasLimit) firstLoop l' ∧ rs[0]? = some r ∧
      Exec.Passes firstLoop (pricedTx txType gasLimit) ∧
      ¬ Exec.GasExact (pricedTx txType gasLimit) firstLoop l' r := by
  obtain ⟨a, rs, ha, hok, -⟩ := apply_ok start (pricedBlock txType gasLimit) hcheck
  obtain ⟨l', o, hturn, hreceipts, hr⟩ := first_turn ha hok
    (show (pricedBlock txType gasLimit).transactions[0]? = some (pricedTx txType gasLimit) from rfl)
  have htyped : Typed (pricedTx txType gasLimit).transaction :=
    ⟨show 7 < 2 ^ 128 by decide, hlimit, show 1 < 2 ^ 64 by decide⟩
  refine ⟨a, rs, l', _, ha, hok, hturn, hr, hp, fun hexact => ?_⟩
  exact hnot _ ((Exec.gasExact_of_passes htyped hp hturn.step hreceipts).mp hexact)

/-- **Two transactions that are not charged what they report**: a transfer whose limit is below the
base gas, and a call of an address without code. -/
theorem not_gasExact_low_limit_and_no_code :
    Reachable .small .small .default Small.genesis Small.start ∧
    (∃ a rs l' r, Small.apply Small.start (Small.pricedBlock .transfer 1) = some a ∧
      a.result = .ok rs ∧
      Exec.AtTurn .small .small .default (fun _ => .listed) (Small.pricedBlock .transfer 1)
        Small.firstLoop 0 (Small.pricedTx .transfer 1) Small.firstLoop l' ∧ rs[0]? = some r ∧
      Exec.Passes Small.firstLoop (Small.pricedTx .transfer 1) ∧
      ¬ Exec.GasExact (Small.pricedTx .transfer 1) Small.firstLoop l' r) ∧
    ∃ a rs l' r, Small.apply Small.start (Small.pricedBlock .contractCall 50000) = some a ∧
      a.result = .ok rs ∧
      Exec.AtTurn .small .small .default (fun _ => .listed) (Small.pricedBlock .contractCall 50000)
        Small.firstLoop 0 (Small.pricedTx .contractCall 50000) Small.firstLoop l' ∧
      rs[0]? = some r ∧ Exec.Passes Small.firstLoop (Small.pricedTx .contractCall 50000) ∧
      ¬ Exec.GasExact (Small.pricedTx .contractCall 50000) Small.firstLoop l' r := by
  refine ⟨Small.reachable_start,
    Small.not_gasExact_priced .transfer (by decide) (by decide +kernel) (by decide +kernel) ?_,
    Small.not_gasExact_priced .contractCall (by decide) (by decide +kernel) (by decide +kernel) ?_⟩
  · intro gasUsed hfits
    exact absurd hfits.1 (by decide)
  · intro gasUsed hfits
    have hno : Exec.NoCode (Small.pricedTx .contractCall 50000).transaction Small.firstLoop := by
      decide +kernel
    rw [Exec.GasFits, show (Small.pricedTx .contractCall 50000).transaction.txType = .contractCall
      from rfl] at hfits
    dsimp only at hfits
    rw [if_pos hno] at hfits
    exact absurd hfits.2 (by decide)

end Rustchain.Consensus
