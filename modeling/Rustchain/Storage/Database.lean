import Rustchain.Core.Chain
import Rustchain.Lib.Maps

/-! # The chain database

A `Database` is the content of the RocksDB column families, with typed values: `bincode` reads back
what it wrote. Code that accesses the database is generic in a `Backend`, which says how a single
operation goes. The database itself is the backend on which nothing fails; `FaultyStore` is one on
which a chosen operation fails and that keeps a record of all operations. A write batch is one
operation. -/

namespace Rustchain.Storage

open Rustchain.Core Lib.Maps

/-- The errors of the database layer that an operation can return. -/
inductive StorageError where
  | database (msg : String)
  | deserialization (msg : String)
  deriving DecidableEq, Repr

def StorageError.display : StorageError → String
  | .database m => s!"database error: {m}"
  | .deserialization m => s!"deserialization error: {m}"

/-! ### Contents -/

/-- The column families. The three entries of the `meta` family that the chain uses are fields. -/
structure Database where
  blocks : Table ℕ Block
  blockHashes : Table Blake3Hash ℕ
  transactions : Table Blake3Hash SignedTransaction
  txIndex : Table Blake3Hash (ℕ × ℕ)
  accounts : Table Address Account
  receipts : Table Blake3Hash TransactionReceipt
  validators : Table Address ValidatorInfo
  epochs : Table ℕ EpochInfo
  contracts : Table Blake3Hash Bytes
  contractStorage : Table Bytes Bytes
  chainHeight : Option ℕ
  bestBlockHash : Option Blake3Hash
  genesisHash : Option Blake3Hash
  deriving DecidableEq

/-- The database of a node that was never started. -/
def Database.empty : Database :=
  ⟨∅, ∅, ∅, ∅, ∅, ∅, ∅, ∅, ∅, ∅, none, none, none⟩

/-- `contract_storage_key`: the address followed by the key. -/
def contractStorageKey (addr : Address) (key : Bytes) : Bytes := addr.asBytes ++ key

theorem contractStorageKey_injective {a b : Address} {k l : Bytes}
    (h : contractStorageKey a k = contractStorageKey b l) : a = b ∧ k = l := by
  obtain ⟨h1, h2⟩ := List.append_inj h (by rw [a.length_asBytes, b.length_asBytes])
  exact ⟨Address.asBytes_injective h1, h2⟩

/-! ### Writes -/

namespace Database

variable (P : Primitives)

def putBlock (b : Block) (d : Database) : Database :=
  { d with
    blocks := d.blocks.insert b.header.number b
    blockHashes := d.blockHashes.insert (b.hash P) b.header.number }

def putAccount (a : Account) (d : Database) : Database :=
  { d with accounts := d.accounts.insert a.address a }

def putValidator (v : ValidatorInfo) (d : Database) : Database :=
  { d with validators := d.validators.insert v.address v }

def putEpoch (e : EpochInfo) (d : Database) : Database :=
  { d with epochs := d.epochs.insert e.epochNumber e }

def putContractCode (h : Blake3Hash) (code : Bytes) (d : Database) : Database :=
  { d with contracts := d.contracts.insert h code }

def putContractStorage (addr : Address) (key value : Bytes) (d : Database) : Database :=
  { d with contractStorage := d.contractStorage.insert (contractStorageKey addr key) value }

def deleteContractStorage (addr : Address) (key : Bytes) (d : Database) : Database :=
  { d with contractStorage := d.contractStorage.erase (contractStorageKey addr key) }

def setChainHeight (n : ℕ) (d : Database) : Database := { d with chainHeight := some n }

def setBestBlockHash (h : Blake3Hash) (d : Database) : Database :=
  { d with bestBlockHash := some h }

def setGenesisHash (h : Blake3Hash) (d : Database) : Database := { d with genesisHash := some h }

/-- `put_transactions` of a batch: each transaction under its hash, with its place in the block. -/
def putTransactions (txs : List SignedTransaction) (n : ℕ) (d : Database) : Database :=
  { d with
    transactions := txs.foldl (fun m tx => m.insert tx.txHash tx) d.transactions
    txIndex := txs.zipIdx.foldl (fun m e => m.insert e.1.txHash (n, e.2 % 2 ^ 32)) d.txIndex }

def putReceipts (rs : List TransactionReceipt) (d : Database) : Database :=
  { d with receipts := rs.foldl (fun m r => m.insert r.txHash r) d.receipts }

def updateAccounts (l : List Account) (d : Database) : Database :=
  { d with accounts := l.foldl (fun m a => m.insert a.address a) d.accounts }

/-- What the `BlockCommitBatch` of `apply_block` writes when it commits. -/
def commitBlock (block : Block) (receipts : List TransactionReceipt) (accounts : List Account)
    (d : Database) : Database :=
  ((((((d.putBlock P block).putTransactions block.transactions block.header.number).putReceipts
    receipts).updateAccounts accounts).setChainHeight block.header.number).setBestBlockHash
      (block.hash P))

end Database

/-! ### Operations -/

/-- The single operations on the database. -/
inductive StorageOp where
  | getAccount (addr : Address)
  | getContractStorage (addr : Address) (key : Bytes)
  | getContractCode (codeHash : Blake3Hash)
  | getMeta
  | getBlock (n : ℕ)
  | getBlockNumber (blockHash : Blake3Hash)
  | getTxLocation (txHash : Blake3Hash)
  | getReceipt (txHash : Blake3Hash)
  | putAccount (addr : Address)
  | putContractCode (codeHash : Blake3Hash)
  | putContractStorage (addr : Address) (key : Bytes)
  | deleteContractStorage (addr : Address) (key : Bytes)
  | putValidator (addr : Address)
  | putBlock (n : ℕ)
  | putEpoch (n : ℕ)
  | putMeta
  | writeBatch (n : ℕ)
  deriving DecidableEq, Repr

/-- A handle on a database. `perform op f` does one operation, whose effect is `f` if it succeeds.
-/
class Backend (σ : Type) where
  db : σ → Database
  perform : StorageOp → (Database → Database) → σ → Except StorageError Unit × σ

instance : Backend Database where
  db d := d
  perform _ f d := (.ok (), f d)

/-- A database on which operation number `fault` fails, with the record of all operations so far. -/
structure FaultyStore where
  content : Database
  fault : Option ℕ
  error : StorageError
  log : List (StorageOp × Bool)

instance : Backend FaultyStore where
  db s := s.content
  perform op f s :=
    if s.fault = some s.log.length then (.error s.error, { s with log := s.log ++ [(op, false)] })
    else (.ok (), { s with content := f s.content, log := s.log ++ [(op, true)] })

section
variable {σ α : Type} [Backend σ]

def read (op : StorageOp) (f : Database → α) (s : σ) : Except StorageError α × σ :=
  let r := Backend.perform op id s
  (r.1.map fun _ => f (Backend.db r.2), r.2)

def getAccount (addr : Address) : σ → Except StorageError (Option Account) × σ :=
  read (.getAccount addr) fun d => d.accounts.lookup addr

def getContractStorage (addr : Address) (key : Bytes) :
    σ → Except StorageError (Option Bytes) × σ :=
  read (.getContractStorage addr key) fun d =>
    d.contractStorage.lookup (contractStorageKey addr key)

def getContractCode (h : Blake3Hash) : σ → Except StorageError (Option Bytes) × σ :=
  read (.getContractCode h) fun d => d.contracts.lookup h

def getGenesisHash : σ → Except StorageError (Option Blake3Hash) × σ :=
  read .getMeta fun d => d.genesisHash

def getChainHeight : σ → Except StorageError (Option ℕ) × σ :=
  read .getMeta fun d => d.chainHeight

def getBlockByNumber (n : ℕ) : σ → Except StorageError (Option Block) × σ :=
  read (.getBlock n) fun d => d.blocks.lookup n

/-- `get_block_by_hash`: the number of the block and then the block. -/
def getBlockByHash (h : Blake3Hash) (s : σ) : Except StorageError (Option Block) × σ :=
  match read (.getBlockNumber h) (fun d => d.blockHashes.lookup h) s with
  | (.ok (some n), s) => getBlockByNumber n s
  | (.ok none, s) => (.ok none, s)
  | (.error e, s) => (.error e, s)

def getTxLocation (h : Blake3Hash) : σ → Except StorageError (Option (ℕ × ℕ)) × σ :=
  read (.getTxLocation h) fun d => d.txIndex.lookup h

def getReceipt (h : Blake3Hash) : σ → Except StorageError (Option TransactionReceipt) × σ :=
  read (.getReceipt h) fun d => d.receipts.lookup h

end

@[simp] theorem read_database {α : Type} (op : StorageOp) (f : Database → α) (d : Database) :
    read op f d = (.ok (f d), d) := rfl

theorem getBlockByHash_database (h : Blake3Hash) (d : Database) :
    getBlockByHash h d = (.ok ((d.blockHashes.lookup h).bind d.blocks.lookup), d) := by
  unfold getBlockByHash
  rw [read_database]
  cases d.blockHashes.lookup h with
  | none => rfl
  | some n => rfl

end Rustchain.Storage
