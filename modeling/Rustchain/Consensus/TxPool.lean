import Rustchain.Consensus.State

/-! # The transaction pool

`TransactionPool`: the transactions that wait for a block, by hash, with an index of their senders.
Only `insert` adds to the pool and it verifies what it adds, so every pool carries the proof that
its transactions verify. -/

namespace Rustchain.Consensus

open Rustchain.Core Lib.Machine Lib.Maps

structure PooledTransaction where
  tx : SignedTransaction
  addedAt : ℕ
  gasPrice : ℕ
  deriving DecidableEq, Repr

structure TransactionPool (P : Primitives) where
  pending : HashMap Blake3Hash PooledTransaction
  bySender : HashMap Address (Finset (ℕ × Blake3Hash))
  maxSize : ℕ
  minGasPrice : ℕ
  verified : ∀ h p, pending.lookup h = some p → p.tx.verify P = .ok ()

namespace TransactionPool

variable {P : Primitives}

def new (P : Primitives) (maxSize minGasPrice : ℕ) : TransactionPool P where
  pending := ∅
  bySender := ∅
  maxSize := maxSize
  minGasPrice := minGasPrice
  verified _ _ h := by simp at h

/-- The two writes of `insert`, for a transaction that verifies. -/
def add (pool : TransactionPool P) (tx : SignedTransaction) (now : ℕ)
    (h : tx.verify P = .ok ()) : TransactionPool P where
  pending := pool.pending.insert tx.hash ⟨tx, now, tx.transaction.gasPrice⟩
  bySender := pool.bySender.insert tx.sender
    (insert (tx.transaction.nonce, tx.hash) ((pool.bySender.lookup tx.sender).getD ∅))
  maxSize := pool.maxSize
  minGasPrice := pool.minGasPrice
  verified k p hp := by
    by_cases hk : k = tx.hash
    · rw [hk, AList.lookup_insert] at hp
      rw [← Option.some.inj hp]
      exact h
    · rw [AList.lookup_insert_ne hk] at hp
      exact pool.verified k p hp

/-- **`insert`** at the clock reading `now`: the pool afterwards, or an error with no change. -/
def insert (pool : TransactionPool P) (tx : SignedTransaction) (now : ℕ) :
    Except ConsensusError (TransactionPool P) :=
  match h : tx.verify P with
  | .error e => .error (.transactionPool s!"invalid transaction: {e.display}")
  | .ok _ =>
    if tx.transaction.gasPrice < pool.minGasPrice then
      let price := tx.transaction.gasPrice
      .error (.transactionPool s!"gas price {price} below minimum {pool.minGasPrice}")
    else if pool.maxSize ≤ pool.pending.keys.length then
      .error (.transactionPool "transaction pool is full")
    else if (pool.pending.lookup tx.hash).isSome then
      .error (.transactionPool "duplicate transaction")
    else .ok (pool.add tx now h)

/-- The index of senders once a transaction is gone: a sender without transactions leaves it. -/
def unlist (bySender : HashMap Address (Finset (ℕ × Blake3Hash))) (sender : Address)
    (entry : ℕ × Blake3Hash) : HashMap Address (Finset (ℕ × Blake3Hash)) :=
  match bySender.lookup sender with
  | none => bySender
  | some set =>
    if set.erase entry = ∅ then bySender.erase sender
    else bySender.insert sender (set.erase entry)

/-- `remove`: the transaction, if it was there, and the pool afterwards. -/
def remove (pool : TransactionPool P) (h : Blake3Hash) :
    Option SignedTransaction × TransactionPool P :=
  match pool.pending.lookup h with
  | none => (none, pool)
  | some pooled =>
    (some pooled.tx,
      { pool with
        pending := pool.pending.erase h
        bySender := unlist pool.bySender pooled.tx.sender (pooled.tx.transaction.nonce, h)
        verified := fun k p hp => by
          by_cases hk : k = h
          · rw [hk, AList.lookup_erase] at hp
            cases hp
          · rw [AList.lookup_erase_ne hk] at hp
            exact pool.verified k p hp })

def pruneCommitted (pool : TransactionPool P) (hashes : List Blake3Hash) : TransactionPool P :=
  hashes.foldl (fun pool h => (pool.remove h).2) pool

/-- `prune_expired` at the clock reading `now`: the hashes are collected first and then removed. -/
def pruneExpired (pool : TransactionPool P)
    (order : IterOrder (Sigma fun _ : Blake3Hash => PooledTransaction)) (now maxAge : ℕ) :
    TransactionPool P :=
  (((order.visit pool.pending.entries).filter fun e =>
    decide (maxAge < now - e.2.addedAt)).map (·.1)).foldl (fun pool h => (pool.remove h).2) pool

/-! ### Selection -/

/-- A pending transaction as the selection sorts it: gas price, nonce and hash. -/
structure Candidate where
  gasPrice : ℕ
  nonce : ℕ
  hash : Blake3Hash
  deriving DecidableEq, Repr

/-- The order of the selection: the higher gas price first, then the lower nonce. -/
def Candidate.Before (a b : Candidate) : Prop :=
  b.gasPrice < a.gasPrice ∨ b.gasPrice = a.gasPrice ∧ a.nonce ≤ b.nonce

instance : DecidableRel Candidate.Before := fun a b => by
  unfold Candidate.Before
  infer_instance

/-- The candidates in the order in which the selection tries them. The sort of the source is stable,
as insertion sort is. -/
def candidates (pool : TransactionPool P)
    (order : IterOrder (Sigma fun _ : Blake3Hash => PooledTransaction)) : List Candidate :=
  ((order.visit pool.pending.entries).map fun e =>
    ⟨e.2.gasPrice, e.2.tx.transaction.nonce, e.1⟩).insertionSort Candidate.Before

/-- The loop of the selection, from `selected` and `totalGas` on. -/
def selectFrom (pool : TransactionPool P) (gasLimit maxCount : ℕ) :
    List Candidate → List SignedTransaction → ℕ → Flagged (List SignedTransaction)
  | [], selected, _ => pure selected
  | c :: rest, selected, totalGas =>
    if maxCount ≤ selected.length then pure selected
    else
      match pool.pending.lookup c.hash with
      | none => selectFrom pool gasLimit maxCount rest selected totalGas
      | some entry => do
        let gas ← addU 64 totalGas entry.tx.transaction.gasLimit
        if gasLimit < gas then selectFrom pool gasLimit maxCount rest selected totalGas
        else selectFrom pool gasLimit maxCount rest (selected ++ [entry.tx]) gas

/-- **`select_transactions`.** -/
def selectTransactions (pool : TransactionPool P)
    (order : IterOrder (Sigma fun _ : Blake3Hash => PooledTransaction)) (gasLimit maxCount : ℕ) :
    Flagged (List SignedTransaction) :=
  pool.selectFrom gasLimit maxCount (pool.candidates order) [] 0

theorem selectFrom_verified (pool : TransactionPool P) (gasLimit maxCount : ℕ) :
    ∀ (cs : List Candidate) (selected : List SignedTransaction) (totalGas : ℕ),
      (∀ tx ∈ selected, tx.verify P = .ok ()) →
        ∀ tx ∈ (pool.selectFrom gasLimit maxCount cs selected totalGas).val, tx.verify P = .ok ()
  | [], _, _, h => h
  | c :: rest, selected, totalGas, h => by
    unfold selectFrom
    split_ifs
    · exact h
    · cases hl : pool.pending.lookup c.hash with
      | none => exact selectFrom_verified pool gasLimit maxCount rest selected totalGas h
      | some entry =>
        rw [val_bind]
        split_ifs
        · exact selectFrom_verified pool gasLimit maxCount rest selected totalGas h
        · refine selectFrom_verified pool gasLimit maxCount rest _ _ fun tx htx => ?_
          rcases List.mem_append.mp htx with hs | he
          · exact h tx hs
          · rw [List.mem_singleton.mp he]
            exact pool.verified _ _ hl

theorem selectTransactions_verified (pool : TransactionPool P)
    (order : IterOrder (Sigma fun _ : Blake3Hash => PooledTransaction)) (gasLimit maxCount : ℕ)
    {tx : SignedTransaction} (h : tx ∈ (pool.selectTransactions order gasLimit maxCount).val) :
    tx.verify P = .ok () :=
  selectFrom_verified pool gasLimit maxCount _ [] 0 (by simp) tx h

end TransactionPool

end Rustchain.Consensus
