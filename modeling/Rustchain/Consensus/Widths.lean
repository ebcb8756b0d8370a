import Rustchain.Consensus.ContractBalances
import Rustchain.Consensus.Turns

/-! # Balances are values of `u128`

Every balance that the loop writes is the result of an operation on `u128`, of a clamped operation
on `i128`, or the value of a transaction. So whatever overflows on the way, the balances of the
accounts stay values of their type. -/

namespace Rustchain.Consensus

open Rustchain.Core Storage Vm Lib.Machine Lib.Maps Lib.Partial

/-- All balances that the loop sees are values of `u128`. -/
def Loop.InWidth {M : Type} (l : Loop M Database) : Prop := ∀ a, l.balance a < 2 ^ 128

section
variable {M : Type} {l l' : Loop M Database}

theorem Loop.InWidth.congr (h : l.InWidth) (heq : l'.accounts = l.accounts) : l'.InWidth := by
  intro a
  unfold Loop.balance
  rw [heq]
  exact h a

theorem Loop.InWidth.insert (h : l.InWidth) {a : Address} {x : Account} (hx : x.balance < 2 ^ 128)
    (heq : l'.accounts = l.accounts.insert a x) : l'.InWidth := by
  intro b
  unfold Loop.balance
  rw [heq, accountOf_insert]
  split_ifs
  · exact hx
  · exact h b

namespace Exec

theorem credit_balance_lt (x : Account) (n : ℕ) : (x.credit n).val.balance < 2 ^ 128 :=
  Nat.mod_lt _ (Nat.two_pow_pos 128)

theorem debit_balance_lt {x : Account} (hx : x.balance < 2 ^ 128) (n : ℕ) :
    (x.debit n).val.balance < 2 ^ 128 := by
  show (subU 128 x.balance n).val < _
  unfold subU
  split_ifs with hle
  · exact lt_of_le_of_lt (Nat.sub_le _ _) hx
  · dsimp only
    omega

theorem prepay_balance_lt {x : Account} (hx : x.balance < 2 ^ 128) (tx : Transaction) :
    (prepay tx x).val.balance < 2 ^ 128 :=
  debit_balance_lt hx tx.maxGasCost.val

theorem inWidth_applyBalanceChange (a : Address) (d : ℤ) :
    Keeps (fun l l' => l.InWidth → l'.InWidth)
      (applyBalanceChange a d : ExecM M Database Unit) := by
  intro l u l' h hl
  unfold applyBalanceChange at h
  rw [bind_of_eq (getOrCreate_apply _ _), bind_of_eq (arith_apply _ _),
    bind_of_eq (arith_apply _ _), insertAccount_apply] at h
  obtain ⟨-, rfl⟩ := some_pair_inj h
  -- a clamped value of `i128` is one of `u128`
  have hclamp : ∀ v : ℤ, InRangeI 128 v → (max v 0).toNat < 2 ^ 128 := by
    rintro v ⟨-, hlt⟩
    omega
  refine hl.insert ?_ (Loop.accounts_put _ _ _)
  dsimp only
  exact hclamp _ (inRangeI_fitI (Nat.succ_pos 127) _)

theorem inWidth_flush (ord : HashOrders) (c : ExecutionContext) :
    Keeps (fun l l' => l.InWidth → l'.InWidth) (flush ord c : ExecM M Database Unit) := by
  intro l u l' h hl
  obtain ⟨_, l1, h1, h2⟩ := bind_eq_some.mp h
  have hl1 : l1.InWidth := hl.congr (accounts_applyStorageChanges _ _ _ _ _ h1).1
  exact Keeps.forM (fun _ h => h) (fun _ _ _ h1 h2 h => h2 (h1 h))
    (fun e _ => inWidth_applyBalanceChange e.1 e.2) _ _ _ h2 hl1

/-- What a branch gives back and leaves. -/
def BranchInWidth (x' : Account) (l' : Loop M Database) : Prop :=
  x'.balance < 2 ^ 128 ∧ l'.InWidth

theorem refundGas_balance_lt {tx : Transaction} {g : ℕ} {x x' : Account}
    (h : refundGas tx g x l = some (x', l')) : x'.balance < 2 ^ 128 := by
  rw [refundGas_apply] at h
  obtain ⟨rfl, -⟩ := some_pair_inj h
  exact credit_balance_lt _ _

section
variable {stx : SignedTransaction} {x x' : Account} {o : Outcome}

theorem inWidth_executeTransfer {tx : Transaction}
    (h : executeTransfer tx x l = some ((x', o), l')) (hl : l.InWidth) : BranchInWidth x' l' := by
  obtain ⟨-, hrefund⟩ := executeTransfer_run h
  obtain ⟨b, ov, -, rfl, -⟩ := refundGas_spec hrefund
  exact ⟨refundGas_balance_lt hrefund, hl.insert (credit_balance_lt _ _) (Loop.accounts_put _ _ _)⟩

theorem inWidth_executeStake (h : executeStake stx x l = some ((x', o), l')) (hl : l.InWidth) :
    BranchInWidth x' l' := by
  obtain ⟨-, vi, hrefund⟩ := executeStake_run h
  exact ⟨refundGas_balance_lt hrefund, hl.congr (executeStake_spec h).1.accounts_eq⟩

theorem inWidth_executeUnstake (h : executeUnstake stx x l = some ((x', o), l')) (hl : l.InWidth) :
    BranchInWidth x' l' := by
  refine ⟨?_, hl.congr (executeUnstake_spec h).1.accounts_eq⟩
  cases unstakeRun_of_eq_some h with
  | refused _ hrefund => exact refundGas_balance_lt hrefund
  | done _ _ hrefund => exact refundGas_balance_lt hrefund

end

end Exec

end

namespace Exec

section
variable {P : Primitives} {W : Wasmtime} {cfg : VmConfig} {ord : HashOrders} {block : Block}
  {stx : SignedTransaction} {l l' : Loop W.Module Database} {x x' : Account} {o : Outcome}

theorem inWidth_executeDeploy {tx : Transaction} {sender : Address}
    (h : executeDeploy P W cfg ord block tx sender x l = some ((x', o), l'))
    (hvalue : tx.value < 2 ^ 128) (hx : x.balance < 2 ^ 128) (hl : l.InWidth) :
    BranchInWidth x' l' := by
  cases deployRun_of_eq_some P W cfg ord h with
  | refused => exact ⟨hx, hl⟩
  | @done r s l1 _ _ _ hflush hrefund =>
    have hl1 : l1.InWidth := by
      refine inWidth_flush _ _ _ _ _ hflush (hl.insert ?_ (accounts_withContract _ _ _ _))
      exact hvalue
    obtain ⟨b, ov, -, rfl, -⟩ := refundGas_spec hrefund
    exact ⟨refundGas_balance_lt hrefund, hl1⟩

theorem inWidth_executeCall {tx : Transaction} {sender : Address}
    (h : executeCall P W cfg ord block tx sender x l = some ((x', o), l'))
    (hx : x.balance < 2 ^ 128) (hl : l.InWidth) : BranchInWidth x' l' := by
  cases callRun_of_eq_some P W cfg ord h with
  | noCode => exact ⟨hx, hl⟩
  | refused => exact ⟨hx, hl⟩
  | failed _ _ _ hrefund =>
    obtain ⟨b, ov, -, rfl, -⟩ := refundGas_spec hrefund
    exact ⟨refundGas_balance_lt hrefund, hl⟩
  | @done _ _ _ l1 _ _ _ _ _ hflush hrefund =>
    have hl1 : l1.InWidth := inWidth_flush _ _ _ _ _ hflush hl
    obtain ⟨b, ov, -, rfl, -⟩ := refundGas_spec hrefund
    exact ⟨refundGas_balance_lt hrefund, hl1⟩

theorem inWidth_executeType (htyped : Typed stx.transaction)
    (h : executeType P W cfg ord block stx x l = some ((x', o), l'))
    (hx : x.balance < 2 ^ 128) (hl : l.InWidth) : BranchInWidth x' l' := by
  unfold executeType at h
  cases ht : stx.transaction.txType with
  | transfer => rw [ht] at h; exact inWidth_executeTransfer h hl
  | contractDeploy => rw [ht] at h; exact inWidth_executeDeploy h htyped.value_lt hx hl
  | contractCall => rw [ht] at h; exact inWidth_executeCall h hx hl
  | stake => rw [ht] at h; exact inWidth_executeStake h hl
  | unstake => rw [ht] at h; exact inWidth_executeUnstake h hl

theorem inWidth_executeTx {i : ℕ} (htyped : Typed stx.transaction)
    (h : executeTx P W cfg ord block i stx l = some ((), l')) (hl : l.InWidth) : l'.InWidth := by
  by_cases hp : Passes l stx
  · obtain ⟨x, o, l1, hrun, rfl⟩ := executeTx_run P W cfg ord hp h
    obtain ⟨hx, hl1⟩ := inWidth_executeType htyped hrun (prepay_balance_lt (hl _) _) hl
    exact hl1.insert hx (accounts_finished _ _ _ _ _)
  · obtain ⟨msg, ov, hs⟩ := executeTx_skip P W cfg ord block i hp
    rw [hs] at h
    obtain ⟨-, rfl⟩ := some_pair_inj h
    exact hl

end

theorem AtTurn.inWidth {P : Primitives} {W : Wasmtime} {cfg : VmConfig} {ord : ℕ → HashOrders}
    {block : Block} {start l l' : Loop W.Module Database} {i : ℕ} {stx : SignedTransaction}
    (h : AtTurn P W cfg ord block start i stx l l')
    (htyped : ∀ stx ∈ block.transactions, Typed stx.transaction) (hstart : start.InWidth) :
    l.InWidth :=
  keeps_executeTxs (R := fun l l' => l.InWidth → l'.InWidth) (fun _ h => h)
    (fun _ _ _ h1 h2 h => h2 (h1 h))
    (fun stx hstx _ _ _ _ hstep => inWidth_executeTx (htyped stx (List.mem_of_mem_take hstx)) hstep)
    _ _ _ h.before hstart

end Exec

end Rustchain.Consensus
