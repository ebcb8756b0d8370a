import Rustchain.Consensus.GasCharges
import Rustchain.Consensus.Pruning
import Rustchain.Consensus.Selection

/-! # The gas of a produced block

The selection keeps the sum of the gas limits within the gas limit of the block, unless the sum
overflows. What goes into the header is the gas that the receipts report, and that is the base gas
for a transaction without an execution, whatever its limit is. A block whose transactions have the
base gas or are metered stays within its limit; another one may be refused by every follower for the
header that its producer wrote. -/

namespace Rustchain.Consensus

open Rustchain.Core Storage Vm Lib.Machine Lib.Maps

namespace Exec

/-- A transaction that reports the base gas: one without an execution, or a call of an address
without code. -/
def Unmetered {M : Type} (tx : Transaction) (l : Loop M Database) : Prop :=
  (tx.txType ≠ .contractDeploy ∧ tx.txType ≠ .contractCall) ∨ NoCode tx l

section
variable {P : Primitives} {W : Wasmtime} {cfg : VmConfig} {ord : HashOrders} {block : Block}
  {stx : SignedTransaction} {l l' : Loop W.Module Database} {x x' : Account} {o : Outcome}

theorem gasUsed_executeType (htyped : Typed stx.transaction)
    (h : executeType P W cfg ord block stx x l = some ((x', o), l')) :
    Unmetered stx.transaction l ∧ o.gasUsed = baseGas ∨
      ¬ Unmetered stx.transaction l ∧ o.gasUsed ≤ stx.transaction.gasLimit := by
  unfold executeType at h
  cases ht : stx.transaction.txType with
  | transfer =>
    rw [ht] at h
    exact .inl ⟨.inl (by rw [ht]; decide), executeTransfer_gas h⟩
  | stake =>
    rw [ht] at h
    exact .inl ⟨.inl (by rw [ht]; decide), executeStake_gas h⟩
  | unstake =>
    rw [ht] at h
    exact .inl ⟨.inl (by rw [ht]; decide), executeUnstake_gas h⟩
  | contractDeploy =>
    rw [ht] at h
    refine .inr ⟨?_, (leaves_deploy htyped ht h).2⟩
    rintro (⟨hne, -⟩ | ⟨hcall, -⟩)
    · exact hne ht
    · cases ht.symm.trans hcall
  | contractCall =>
    rw [ht] at h
    rcases (leaves_call htyped ht h).2 with ⟨hno, hgas⟩ | ⟨hcode, hle⟩
    · exact .inl ⟨.inr hno, hgas⟩
    · refine .inr ⟨?_, hle⟩
      rintro (⟨-, hne⟩ | hno)
      · exact hne ht
      · exact hcode hno

/-- **The gas that a receipt reports is within the limit of the transaction** exactly if an executed
transaction without a meter has the base gas. -/
theorem gasUsed_le_iff {i : ℕ} (htyped : Typed stx.transaction)
    (h : executeTx P W cfg ord block i stx l = some ((), l'))
    (ho : l'.receipts = l.receipts ++ [receiptOf P block i stx o]) :
    o.gasUsed ≤ stx.transaction.gasLimit ↔
      (Passes l stx → Unmetered stx.transaction l → baseGas ≤ stx.transaction.gasLimit) := by
  by_cases hp : Passes l stx
  · obtain ⟨x, l1, hrun, rfl⟩ := executeTx_outcome hp h ho
    have hnoCode : NoCode stx.transaction (entered l stx) ↔ NoCode stx.transaction l := by
      rw [NoCode, accounts_entered]
      rfl
    have hunmetered : Unmetered stx.transaction (entered l stx) ↔ Unmetered stx.transaction l :=
      or_congr_right hnoCode
    rcases gasUsed_executeType htyped hrun with ⟨hun, hgas⟩ | ⟨hmetered, hle⟩
    · rw [hgas]
      exact ⟨fun hle _ _ => hle, fun hle => hle hp (hunmetered.mp hun)⟩
    · exact iff_of_true hle fun _ hun => absurd (hunmetered.mpr hun) hmetered
  · -- a transaction that is skipped reports no gas
    obtain ⟨msg, ov, hskip⟩ := executeTx_skip P W cfg ord block i hp
    rw [hskip] at h
    obtain ⟨-, rfl⟩ := Prod.mk.inj (Option.some.inj h)
    obtain rfl := receiptOf_injective (List.singleton_inj.mp (List.append_cancel_left ho))
    exact iff_of_true (Nat.zero_le _) fun hpass => absurd hpass hp

end

end Exec

section
variable {P : Primitives} {W : Wasmtime} {cfg : VmConfig} {ord : ℕ → HashOrders}
  {cache : HashMap Blake3Hash W.Module} {s : ChainState Database} {block : Block}
  {a : Applied W.Module Database} {rs : List TransactionReceipt}

/-- Every executed transaction of a block without a meter has the base gas. -/
def CoversBaseGas (P : Primitives) (W : Wasmtime) (cfg : VmConfig) (ord : ℕ → HashOrders)
    (cache : HashMap Blake3Hash W.Module) (s : ChainState Database) (block : Block) : Prop :=
  ∀ i stx l l', Exec.AtTurn P W cfg ord block (s.toLoop cache) i stx l l' → Exec.Passes l stx →
    Exec.Unmetered stx.transaction l → baseGas ≤ stx.transaction.gasLimit

theorem length_receipts (h : applyBlock P W cfg ord cache s block = some a)
    (hok : a.result = .ok rs) : rs.length = block.transactions.length := by
  obtain ⟨-, -, l, hl, rfl⟩ := applyBlock_ok h hok
  obtain rfl := Except.ok.inj hok
  have hhash := congrArg List.length (Exec.executeTxs_receipts hl)
  simpa [ChainState.toLoop] using hhash

theorem gasUsed_le_gasSum (h : applyBlock P W cfg ord cache s block = some a)
    (hok : a.result = .ok rs) (htyped : ∀ stx ∈ block.transactions, Typed stx.transaction)
    (hcovers : CoversBaseGas P W cfg ord cache s block) :
    (rs.map (·.gasUsed)).sum ≤ TransactionPool.gasSum block.transactions := by
  refine List.Forall₂.sum_le_sum (List.forall₂_iff_get.mpr ⟨?_, fun i hr ht => ?_⟩)
  · rw [List.length_map, List.length_map, length_receipts h hok]
  · rw [List.length_map] at hr ht
    have hi : block.transactions[i]? = some block.transactions[i] := List.getElem?_eq_getElem ht
    obtain ⟨l, l', o, hturn, hreceipts, hget⟩ := exists_turn_of_applied h hok hi
    have hle := (Exec.gasUsed_le_iff (htyped _ (List.getElem_mem ht)) hturn.step hreceipts).mpr
      (hcovers i _ l l' hturn)
    obtain ⟨_, hr'⟩ := List.getElem?_eq_some_iff.mp hget
    simp only [List.get_eq_getElem, List.getElem_map, hr']
    exact hle

/-- **A block of selected transactions** stays within the gas limit if the selection did not
overflow and unmetered transactions have the base gas. -/
theorem gasUsed_selected_le {pool : TransactionPool P}
    {order : IterOrder (Sigma fun _ : Blake3Hash => PooledTransaction)} {gasLimit maxCount : ℕ}
    (htxs : block.transactions = (pool.selectTransactions order gasLimit maxCount).val)
    (hlimit : gasLimit < 2 ^ 64)
    (htyped : ∀ h p, pool.pending.lookup h = some p → Typed p.tx.transaction)
    (h : applyBlock P W cfg ord cache s block = some a) (hok : a.result = .ok rs)
    (hovf : (pool.selectTransactions order gasLimit maxCount).ovf = false)
    (hcovers : CoversBaseGas P W cfg ord cache s block) :
    (rs.map (·.gasUsed)).sum ≤ gasLimit := by
  have hsum := (TransactionPool.gasSum_selectTransactions_iff order gasLimit maxCount pool hlimit
    fun k p hp => (htyped k p hp).gasLimit_lt).mpr hovf
  rw [← htxs] at hsum
  refine (gasUsed_le_gasSum h hok (fun stx hstx => ?_) hcovers).trans hsum
  obtain ⟨k, p, hp, rfl⟩ := TransactionPool.mem_selectTransactions (htxs ▸ hstx)
  exact htyped k p hp

end

theorem ConsensusEngine.transactions_draft {P : Primitives} {W : Wasmtime}
    (e : ConsensusEngine P W Database) (su : Surroundings) (keypair : KeyPair) :
    (e.draft su keypair).transactions = (e.txPool.selectTransactions su.pool
      e.config.gasLimitPerBlock e.config.maxTransactionsPerBlock).val := rfl

theorem ConsensusEngine.mem_draft {P : Primitives} {W : Wasmtime}
    {e : ConsensusEngine P W Database} {su : Surroundings} {keypair : KeyPair}
    {stx : SignedTransaction} (h : stx ∈ (e.draft su keypair).transactions) :
    ∃ k p, e.txPool.pending.lookup k = some p ∧ p.tx = stx :=
  TransactionPool.mem_selectTransactions h

namespace Small

def payer : ConsensusEngine .small .small Database := engineWith [tip]

def tight : ConsensusEngine .small .small Database :=
  { engineWith [pricedTx .transfer 1] with config := { config with gasLimitPerBlock := 20000 } }

def overfull : Block :=
  ConsensusEngine.sealBlock .small (tight.draft surroundings (.small 1)) 21000 (.small 1)

def huge (nonce : ℕ) : SignedTransaction :=
  .new .small ⟨1, nonce, (KeyPair.small 2).address .small, some ((KeyPair.small 1).address .small),
    7, .transfer, 2 ^ 63, 1, [], 0⟩ (KeyPair.small 2)

def hugePool : TransactionPool .small := (engineWith [huge 0, huge 1]).txPool

end Small

end Rustchain.Consensus
