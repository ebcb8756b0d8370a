import Rustchain.Consensus.EngineRuns
import Rustchain.Consensus.PoolIndex

/-! # What production takes out of the pool

A block is made of the transactions with the highest gas prices, whatever their nonces. Execution
skips those whose nonce is not the next one of the sender, or whose sender cannot pay. After the
block, all selected transactions leave the pool, the skipped ones too. One that was skipped because
a transaction before it was still to come is lost. -/

namespace Rustchain.Consensus

open Rustchain.Core Storage Vm Lib.Machine Lib.Maps Lib.Runs

variable {P : Primitives} {W : Wasmtime} {cfg : VmConfig} {g : GenesisConfig}

/-! ### Selection and removal -/

namespace TransactionPool

variable {pool : TransactionPool P}

/-- Every pending transaction stands under its hash. -/
def Keyed (pool : TransactionPool P) : Prop :=
  ∀ h p, pool.pending.lookup h = some p → p.tx.hash = h

theorem Indexed.keyed {maxSize minGasPrice : ℕ} (h : Indexed maxSize minGasPrice pool) :
    pool.Keyed := fun k p hp => (h.entries k p hp).1

theorem mem_selectFrom {gasLimit maxCount : ℕ} {tx : SignedTransaction} {cs : List Candidate}
    {selected : List SignedTransaction} {totalGas : ℕ}
    (h : tx ∈ (pool.selectFrom gasLimit maxCount cs selected totalGas).val) :
    tx ∈ selected ∨ ∃ k p, pool.pending.lookup k = some p ∧ p.tx = tx := by
  induction cs generalizing selected totalGas with
  | nil => exact .inl h
  | cons c rest ih =>
    unfold selectFrom at h
    split_ifs at h with hcount
    · exact .inl h
    · cases hl : pool.pending.lookup c.hash with
      | none =>
        rw [hl] at h
        exact ih h
      | some entry =>
        rw [hl] at h
        dsimp only at h
        rw [val_bind] at h
        split_ifs at h with hgas
        · exact ih h
        · rcases ih h with hmem | hpool
          · rcases List.mem_append.mp hmem with hmem | hmem
            · exact .inl hmem
            · exact .inr ⟨c.hash, entry, hl, (List.mem_singleton.mp hmem).symm⟩
          · exact .inr hpool

theorem mem_selectTransactions {gasLimit maxCount : ℕ} {tx : SignedTransaction}
    {order : IterOrder (Sigma fun _ : Blake3Hash => PooledTransaction)}
    (h : tx ∈ (pool.selectTransactions order gasLimit maxCount).val) :
    ∃ k p, pool.pending.lookup k = some p ∧ p.tx = tx := by
  rcases mem_selectFrom h with hnil | hpool
  · exact absurd hnil List.not_mem_nil
  · exact hpool

end TransactionPool

namespace ConsensusEngine

theorem pool_of_call {e e' : ConsensusEngine P W Database} {op : Op} (h : Call cfg e op e') :
    e'.txPool = e.txPool ∨ ∃ pop, TransactionPool.Step e.txPool pop e'.txPool := by
  obtain ⟨r, hr, rfl⟩ := h
  cases op with
  | produce su keypair =>
    cases tryProduceBlock_cases hr with
    | idle _ => exact .inl rfl
    | produced _ _ _ _ =>
      exact .inr ⟨.pruneCommitted ((e.selected su).map SignedTransaction.hash), rfl⟩
  | receive su block =>
    have hrem : ∀ b : Block, (e.remember b).txPool = e.txPool := by
      intro b
      unfold remember
      cases e.seenBlocks.lookup (seenKey b) <;> rfl
    cases onBlockReceived_cases hr with
    | refused _ => exact .inl rfl
    | @detected prevHash _ _ _ _ =>
      refine .inl ?_
      rcases e.slash_cases su.slashTime (.doubleSign prevHash (block.hash P) block.header.number)
        block.header.validator with hs | ⟨v, hs⟩
      · rw [hs]
      · rw [hs]
    | apart _ _ _ => exact .inl (hrem block)
    | accepted _ _ _ _ _ =>
      refine .inr ⟨.pruneCommitted (block.transactions.map (·.hash)), ?_⟩
      show e.txPool.pruneCommitted _ = (e.remember block).txPool.pruneCommitted _
      rw [hrem]
  | transaction tx now =>
    obtain rfl := Option.some.inj hr
    refine .inr ⟨.insert tx now, ?_⟩
    show e.txPool.after (.insert tx now) = (e.onTransactionReceived tx now).engine.txPool
    dsimp only [onTransactionReceived, TransactionPool.after]
    cases e.txPool.insert tx now with
    | error err => rfl
    | ok pool => rfl
  | vote v =>
    obtain rfl := Option.some.inj hr
    refine .inl ?_
    show (e.onVoteReceived v).engine.txPool = e.txPool
    unfold onVoteReceived
    dsimp only
    split <;> rfl

theorem Reachable.pool_indexed {config : ConsensusConfig} {e : ConsensusEngine P W Database}
    (h : Reachable P W cfg config g e) :
    TransactionPool.Indexed config.mempoolSize config.minGasPrice e.txPool := by
  obtain ⟨e₀, ops, ⟨d, d', cache, -, hnew⟩, hrun⟩ := h
  refine hrun.invariant (I := fun e => TransactionPool.Indexed config.mempoolSize
    config.minGasPrice e.txPool) ?_ ?_
  · obtain ⟨s, -, rfl⟩ := new_ok hnew
    exact TransactionPool.indexed_new
  · rintro e op e' hi - hcall
    rcases pool_of_call hcall with heq | ⟨pop, hstep⟩
    · rw [heq]
      exact hi
    · rw [← hstep]
      exact hi.after pop

/-! ### Lost transactions -/

section
variable (cfg : VmConfig) (su : Surroundings) (keypair : KeyPair)
  (e : ConsensusEngine P W Database)

/-- It is our turn and the block extends the head: a block is produced. -/
def Produces : Prop := e.Proposes keypair ∧ Extends P e.chainState (e.draft su keypair)

/-- The transactions that pass the checks of execution in the block. -/
def executedTxs : List SignedTransaction :=
  Exec.executed P W cfg su.ord (e.draft su keypair) 0 (e.selected su)
    (e.chainState.toLoop e.moduleCache)

/-- A transaction is in the block that is produced, and it is skipped there. -/
def Skips (tx : SignedTransaction) : Prop :=
  e.Produces su keypair ∧ tx ∈ e.selected su ∧ tx ∉ e.executedTxs cfg su keypair

/-- The nonce of a transaction is below the one of its sender, for good. -/
def Outdated (tx : SignedTransaction) : Prop :=
  tx.transaction.nonce < (accountOf e.chainState.storage.accounts tx.sender).nonce

/-- No transaction of the pool is lost by a call that leads to `e'`: it is still in the pool, it was
executed in the block, or its nonce is outdated. -/
def NothingLost (e' : ConsensusEngine P W Database) : Prop :=
  ∀ h p, e.txPool.pending.lookup h = some p →
    e'.txPool.pending.lookup h = some p ∨
    (e.Produces su keypair ∧ p.tx ∈ e.executedTxs cfg su keypair) ∨ e'.Outdated p.tx

end

theorem hash_mem_selected_iff {e : ConsensusEngine P W Database} {su : Surroundings}
    (hkeys : e.txPool.Keyed) {k : Blake3Hash} {p : PooledTransaction}
    (hl : e.txPool.pending.lookup k = some p) :
    k ∈ (e.selected su).map (·.hash) ↔ p.tx ∈ e.selected su := by
  constructor
  · intro hk
    obtain ⟨tx, hsel, htx⟩ := List.mem_map.mp hk
    obtain ⟨k', q, hq, rfl⟩ := TransactionPool.mem_selectTransactions hsel
    obtain rfl : k' = k := (hkeys k' q hq).symm.trans htx
    obtain rfl : q = p := Option.some.inj (hq.symm.trans hl)
    exact hsel
  · intro hsel
    rw [← hkeys k p hl]
    exact List.mem_map_of_mem hsel

end ConsensusEngine

/-! ### Two pools of the small chain -/

namespace Small

def engineWith (txs : List SignedTransaction) : ConsensusEngine .small .small Database :=
  txs.foldl (fun e tx => (e.onTransactionReceived tx 0).engine) engine

theorem engineWith_reachable (txs : List SignedTransaction) :
    ConsensusEngine.Reachable .small .small .default config genesis (engineWith txs) := by
  induction txs using List.reverseRecOn with
  | nil => exact ⟨engine, [], engine_created, .nil⟩
  | append_singleton txs tx ih =>
    obtain ⟨e₀, ops, hnew, hrun⟩ := ih
    have hcall : ConsensusEngine.Call .default (engineWith txs) (.transaction tx 0)
        (engineWith (txs ++ [tx])) := by
      unfold engineWith
      rw [List.foldl_concat]
      exact ⟨_, rfl, rfl⟩
    exact ⟨e₀, _, hnew, hrun.snoc trivial hcall⟩

def priced (nonce gasPrice : ℕ) : SignedTransaction :=
  .new .small ⟨1, nonce, (KeyPair.small 2).address .small, some ((KeyPair.small 1).address .small),
    7, .transfer, 50000, gasPrice, [], 0⟩ (KeyPair.small 2)

def hastyPool : ConsensusEngine .small .small Database := engineWith [priced 0 1, priced 1 2]

end Small

namespace ConsensusEngine

end ConsensusEngine

end Rustchain.Consensus
