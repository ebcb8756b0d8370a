import Rustchain.Consensus.Block

/-! # The turns of a block

Every transaction of an applied block has its turn: the loop over the transactions before it leads
to a loop state, from which its own body is run and leaves its receipt. -/

namespace Rustchain.Consensus

open Rustchain.Core Storage Vm Lib.Machine Lib.Maps Lib.Partial

/-- The numbers of a transaction are values of their types, `u128` and `u64`. -/
structure Typed (tx : Transaction) : Prop where
  value_lt : tx.value < 2 ^ 128
  gasLimit_lt : tx.gasLimit < 2 ^ 64
  gasPrice_lt : tx.gasPrice < 2 ^ 64

theorem Typed.gasCost_lt {tx : Transaction} (h : Typed tx) : tx.gasLimit * tx.gasPrice < 2 ^ 128 :=
  calc tx.gasLimit * tx.gasPrice < 2 ^ 64 * 2 ^ 64 :=
        Nat.mul_lt_mul'' h.gasLimit_lt h.gasPrice_lt
    _ = 2 ^ 128 := rfl

theorem Typed.maxGasCost {tx : Transaction} (h : Typed tx) :
    tx.maxGasCost = ⟨tx.gasLimit * tx.gasPrice, false⟩ := by
  unfold Transaction.maxGasCost mulU
  rw [Nat.mod_eq_of_lt h.gasCost_lt, decide_eq_false (Nat.not_le.mpr h.gasCost_lt)]

namespace Exec

section
variable (P : Primitives) (W : Wasmtime) (cfg : VmConfig) (ord : ℕ → HashOrders)

/-- **The turn of a transaction**: it stands at index `i` of the block, the loop over the
transactions before it leads from `start` to `l`, and its own body from `l` to `l'`. -/
structure AtTurn (block : Block) (start : Loop W.Module Database) (i : ℕ) (stx : SignedTransaction)
    (l l' : Loop W.Module Database) : Prop where
  tx : block.transactions[i]? = some stx
  before : executeTxs P W cfg ord block 0 (block.transactions.take i) start = some ((), l)
  step : executeTx P W cfg (ord i) block i stx l = some ((), l')

end

section
variable {P : Primitives} {W : Wasmtime} {cfg : VmConfig} {ord : ℕ → HashOrders} {block : Block}
  {start l l' : Loop W.Module Database}

variable {i : ℕ} {stx : SignedTransaction}

theorem executeTxs_split (hi : block.transactions[i]? = some stx) :
    executeTxs P W cfg ord block 0 block.transactions start =
      (executeTxs P W cfg ord block 0 (block.transactions.take i) >>= fun _ =>
        executeTx P W cfg (ord i) block i stx >>= fun _ =>
          executeTxs P W cfg ord block (i + 1) (block.transactions.drop (i + 1))) start := by
  obtain ⟨hlt, hget⟩ := List.getElem?_eq_some_iff.mp hi
  have hlen : (block.transactions.take i).length = i := List.length_take_of_le hlt.le
  conv_lhs => rw [← List.take_append_drop i block.transactions]
  rw [executeTxs_append, hlen, Nat.zero_add, List.drop_eq_getElem_cons hlt, hget]
  rfl

theorem AtTurn.rest {lend : Loop W.Module Database}
    (hturn : AtTurn P W cfg ord block start i stx l l')
    (h : executeTxs P W cfg ord block 0 block.transactions start = some ((), lend)) :
    executeTxs P W cfg ord block (i + 1) (block.transactions.drop (i + 1)) l' =
      some ((), lend) := by
  rwa [executeTxs_split hturn.tx, bind_of_eq hturn.before, bind_of_eq hturn.step] at h

theorem exists_turn_of_take (hi : block.transactions[i]? = some stx)
    (h : executeTxs P W cfg ord block 0 (block.transactions.take (i + 1)) start = some ((), l')) :
    ∃ l, AtTurn P W cfg ord block start i stx l l' := by
  have hlen : (block.transactions.take i).length = i :=
    List.length_take_of_le (List.getElem?_eq_some_iff.mp hi).1.le
  rw [List.take_add_one, hi, Option.toList_some, executeTxs_append, hlen, Nat.zero_add] at h
  obtain ⟨_, l, hbefore, h⟩ := bind_eq_some.mp h
  obtain ⟨_, l1, hstep, h⟩ := bind_eq_some.mp h
  obtain ⟨-, rfl⟩ := pure_eq_some h
  exact ⟨l, hi, hbefore, hstep⟩

theorem receipts_executeTxs {txs : List SignedTransaction} :
    Keeps (fun l l' : Loop W.Module Database => l.receipts <+: l'.receipts)
      (executeTxs P W cfg ord block i txs) := by
  refine keeps_executeTxs (R := fun l l' => l.receipts <+: l'.receipts)
    (fun l => List.prefix_refl l.receipts) (fun _ _ _ => List.IsPrefix.trans) ?_
  intro stx _ i l _ l' h
  obtain ⟨o, ho⟩ := executeTx_receipt h
  exact ⟨_, ho.symm⟩

theorem exists_turn {lend : Loop W.Module Database}
    (h : executeTxs P W cfg ord block 0 block.transactions start = some ((), lend))
    (hstart : start.receipts = []) (hi : block.transactions[i]? = some stx) :
    ∃ l l' o, AtTurn P W cfg ord block start i stx l l' ∧
      l'.receipts = l.receipts ++ [receiptOf P block i stx o] ∧
      lend.receipts[i]? = some (receiptOf P block i stx o) := by
  rw [executeTxs_split hi] at h
  obtain ⟨_, l, hbefore, h⟩ := bind_eq_some.mp h
  obtain ⟨_, l', hstep, hrest⟩ := bind_eq_some.mp h
  obtain ⟨o, ho⟩ := executeTx_receipt hstep
  have hcount : l.receipts.length = i := by
    have hhash := congrArg List.length (executeTxs_receipts hbefore)
    have hlt := (List.getElem?_eq_some_iff.mp hi).1
    simpa [hstart, hlt.le] using hhash
  obtain ⟨rest, hrest⟩ := receipts_executeTxs _ _ _ hrest
  refine ⟨l, l', o, ⟨hi, hbefore, hstep⟩, ho, ?_⟩
  rw [← hrest, ho, List.append_assoc, List.getElem?_append_right hcount.le, hcount, Nat.sub_self]
  rfl

theorem receiptOf_injective {o o' : Outcome}
    (h : receiptOf P block i stx o = receiptOf P block i stx o') : o = o' := by
  obtain ⟨status, gasUsed, logs, contractAddress, returnData⟩ := o
  obtain ⟨status', gasUsed', logs', contractAddress', returnData'⟩ := o'
  simp only [receiptOf, TransactionReceipt.mk.injEq, true_and] at h
  obtain ⟨rfl, rfl, rfl, rfl, rfl⟩ := h
  rfl

theorem executeTx_outcome {ord : HashOrders} {o : Outcome} (hp : Passes l stx)
    (h : executeTx P W cfg ord block i stx l = some ((), l'))
    (ho : l'.receipts = l.receipts ++ [receiptOf P block i stx o]) :
    ∃ x l1, executeType P W cfg ord block stx
        (prepay stx.transaction (accountOf l.accounts stx.sender)).val (entered l stx) =
          some ((x, o), l1) ∧
      l' = finished l1 stx.sender x o.gasUsed (receiptOf P block i stx o) := by
  obtain ⟨x, o', l1, hrun, rfl⟩ := executeTx_run P W cfg ord hp h
  have hreceipts : l1.receipts = l.receipts := (executeType_branch P W cfg ord hrun).1.receipts
  have heq : l1.receipts ++ [receiptOf P block i stx o'] = _ := ho
  rw [hreceipts] at heq
  obtain rfl := receiptOf_injective (List.singleton_inj.mp (List.append_cancel_left heq))
  exact ⟨x, l1, hrun, rfl⟩

end

end Exec

section
variable {P : Primitives} {W : Wasmtime} {cfg : VmConfig} {ord : ℕ → HashOrders}
  {cache : HashMap Blake3Hash W.Module} {s : ChainState Database} {block : Block}
  {a : Applied W.Module Database} {rs : List TransactionReceipt}

theorem exists_turn_of_applied (h : applyBlock P W cfg ord cache s block = some a)
    (hok : a.result = .ok rs) {i : ℕ} {stx : SignedTransaction}
    (hi : block.transactions[i]? = some stx) :
    ∃ l l' o, Exec.AtTurn P W cfg ord block (s.toLoop cache) i stx l l' ∧
      l'.receipts = l.receipts ++ [receiptOf P block i stx o] ∧
      rs[i]? = some (receiptOf P block i stx o) := by
  obtain ⟨-, -, lend, hloop, rfl⟩ := applyBlock_ok h hok
  obtain rfl := Except.ok.inj hok
  exact Exec.exists_turn hloop rfl hi

end

end Rustchain.Consensus
