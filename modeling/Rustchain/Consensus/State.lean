import Mathlib.Data.List.Sort
import Rustchain.Consensus.Execution

/-! # The chain state

`ChainState`: the head block, the height, the current epoch and the database handle, with the three
functions that change it. `apply_block` runs the transaction loop and commits one write batch,
`maybe_advance_epoch` replaces the epoch after its last block, and `from_genesis` starts a chain or
reloads it. Runs of a node without storage faults are runs over the backend `Database`. -/

namespace Rustchain.Consensus

open Rustchain.Core Storage Vm Lib.Machine Lib.Maps

inductive ConsensusError where
  | invalidBlock (msg : String)
  | wrongProposer (expected got : String)
  | stateTransition (msg : String)
  | transactionPool (msg : String)
  | finality (msg : String)
  | epoch (msg : String)
  | notValidator
  | storage (e : StorageError)
  | core (e : CoreError)
  deriving DecidableEq, Repr

structure ChainState (σ : Type) where
  head : Block
  height : ℕ
  currentEpoch : EpochInfo
  storage : σ

/-- The state of the loop when `apply_block` enters it. -/
def ChainState.toLoop {M σ : Type} (s : ChainState σ) (cache : HashMap Blake3Hash M) :
    Loop M σ where
  storage := s.storage
  validatorSet := s.currentEpoch.validatorSet
  moduleCache := cache
  modifiedAccounts := ∅
  receipts := []
  totalGasUsed := 0
  overflow := false

/-- The state in which the loop leaves the fields of the chain state. -/
def ChainState.ofLoop {M σ : Type} (s : ChainState σ) (l : Loop M σ) : ChainState σ :=
  { s with
    storage := l.storage
    currentEpoch := { s.currentEpoch with validatorSet := l.validatorSet } }

/-- What a call of `apply_block` leaves: its result, the chain state, the module cache of the engine
and whether an arithmetic operation overflowed. -/
structure Applied (M σ : Type) where
  result : Except ConsensusError (List TransactionReceipt)
  state : ChainState σ
  cache : HashMap Blake3Hash M
  overflow : Bool

/-- The accounts of the overlay in the order `values()` yields them. -/
def overlayAccounts (order : IterOrder (Sigma fun _ : Address => Account))
    (m : HashMap Address Account) : List Account := (order.visit m.entries).map (·.2)

section
variable (P : Primitives) (W : Wasmtime) (cfg : VmConfig) {σ : Type} [Backend σ]

/-- The part of `apply_block` after the loop: one atomic batch, then the new head. -/
def commit (ord : HashOrders) (s : ChainState σ) (block : Block) (l : Loop W.Module σ) :
    Applied W.Module σ :=
  let r := Backend.perform (.writeBatch block.header.number)
    (Database.commitBlock P block l.receipts (overlayAccounts ord.accounts l.modifiedAccounts))
    l.storage
  match r.1 with
  | .error e =>
    ⟨.error (.storage e), { s.ofLoop l with storage := r.2 }, l.moduleCache, l.overflow⟩
  | .ok _ =>
    ⟨.ok l.receipts,
      { s.ofLoop l with head := block, height := block.header.number, storage := r.2 },
      l.moduleCache, l.overflow⟩

/-- **`ChainState::apply_block`**; `none` is a panic of the VM host. The hash maps of transaction
`i` are visited in the order `ord i`, the overlay in the order after the last one. -/
def applyBlock (ord : ℕ → HashOrders) (cache : HashMap Blake3Hash W.Module) (s : ChainState σ)
    (block : Block) : Option (Applied W.Module σ) :=
  if block.header.parentHash ≠ s.head.hash P then
    let expected := (s.head.hash P).display
    let got := block.header.parentHash.display
    some ⟨.error (.invalidBlock s!"parent hash mismatch: expected {expected}, got {got}"),
      s, cache, false⟩
  else
    let next := addU 64 s.height 1
    if block.header.number ≠ next.val then
      some ⟨.error (.invalidBlock
        s!"block number mismatch: expected {next.val}, got {block.header.number}"),
        s, cache, next.ovf⟩
    else
      (Exec.executeTxs P W cfg ord block 0 block.transactions (s.toLoop cache)).map fun r =>
        commit P W (ord block.transactions.length) s block r.2

/-! ### Epochs -/

/-- What the epoch transition does to one validator at the clock reading `now`. -/
def unjail (params : ConsensusParams) (now : ℕ) (v : ValidatorInfo) : ValidatorInfo :=
  match v.jailedUntil with
  | some untl =>
    if untl ≤ now then
      { v with jailedUntil := none
               isActive := if params.minStake ≤ v.stake then true else v.isActive }
    else v
  | none => v

/-- The validators of the next epoch: unjailed, with enough stake, the largest stakes first. The
sort of the source is stable, as insertion sort is. -/
def nextValidators (params : ConsensusParams) (now : ℕ) (l : List ValidatorInfo) :
    List ValidatorInfo :=
  (((l.map (unjail params now)).filter fun v => decide (params.minStake ≤ v.stake)).insertionSort
    fun a b => b.stake ≤ a.stake).take params.maxValidators

def nextEpoch (params : ConsensusParams) (now : ℕ) (s : ChainState σ) :
    Flagged EpochInfo := do
  let epochNumber ← addU 64 s.currentEpoch.epochNumber 1
  let startBlock ← addU 64 s.height 1
  let next ← addU 64 startBlock params.epochLength
  let endBlock ← subU 64 next 1
  return ⟨epochNumber, startBlock, endBlock,
    ValidatorSet.new (nextValidators params now s.currentEpoch.validatorSet.validators)
      params.minStake params.maxValidators, none⟩

/-- **`ChainState::maybe_advance_epoch`** at the clock reading `now`. -/
def maybeAdvanceEpoch (params : ConsensusParams) (now : ℕ) (s : ChainState σ) :
    Flagged (Except ConsensusError (Option EpochInfo) × ChainState σ) :=
  if s.currentEpoch.isLastBlock s.height = false then ⟨(.ok none, s), false⟩
  else
    let e := nextEpoch params now s
    let r := Backend.perform (.putEpoch e.val.epochNumber) (Database.putEpoch e.val) s.storage
    match r.1 with
    | .error err => ⟨(.error (.storage err), { s with storage := r.2 }), e.ovf⟩
    | .ok _ => ⟨(.ok (some e.val), { s with currentEpoch := e.val, storage := r.2 }), e.ovf⟩

/-! ### Genesis -/

/-- Storage accesses in sequence; the first error ends them. -/
abbrev InitM (σ : Type) := ExceptT ConsensusError (StateM σ)

/-- A write with `?`. -/
def write (op : StorageOp) (f : Database → Database) : InitM σ Unit := ExceptT.mk fun st =>
  ((Backend.perform op f st).1.mapError .storage, (Backend.perform op f st).2)

/-- A read with `?`. -/
def fetch {α : Type} (f : σ → Except StorageError α × σ) : InitM σ α := ExceptT.mk fun st =>
  ((f st).1.mapError .storage, (f st).2)

def genesisValidatorSet (g : GenesisConfig) : ValidatorSet :=
  ValidatorSet.new g.toValidatorInfos g.consensusParams.minStake g.consensusParams.maxValidators

/-- The epoch that the reload path computes from the height; `none` where the epoch length is zero
and the division panics. -/
def reloadedEpoch (g : GenesisConfig) (height : ℕ) : Option EpochInfo :=
  let len := g.consensusParams.epochLength
  if len = 0 then none
  else
    let epochNumber := height / len
    let start := (mulU 64 epochNumber len).val
    let stop := (subU 64 (addU 64 start len).val 1).val
    some ⟨epochNumber, start, stop, genesisValidatorSet g, none⟩

/-- The path of `from_genesis` for a database that holds a chain already. -/
def reload (g : GenesisConfig) : InitM σ (Option (Block × ℕ × EpochInfo)) := do
  let height := (← fetch getChainHeight).getD 0
  match ← fetch (getBlockByNumber height) with
  | none => throw (.stateTransition "head block not found")
  | some head => return (reloadedEpoch g height).map fun e => (head, height, e)

def firstEpoch (g : GenesisConfig) : EpochInfo :=
  ⟨0, 0, (subU 64 g.consensusParams.epochLength 1).val, genesisValidatorSet g, none⟩

/-- The first-time path of `from_genesis`, write by write. -/
def initChain (g : GenesisConfig) (genesisBlock : Block) :
    InitM σ (Block × ℕ × EpochInfo) := do
  write (.putBlock genesisBlock.header.number) (Database.putBlock P genesisBlock)
  write .putMeta (Database.setChainHeight 0)
  write .putMeta (Database.setGenesisHash (genesisBlock.hash P))
  g.initialAccounts.forM fun a =>
    write (.putAccount a.address) (Database.putAccount (Account.new a.address a.balance))
  g.toValidatorInfos.forM fun v => write (.putValidator v.address) (Database.putValidator v)
  write (.putEpoch 0) (Database.putEpoch (firstEpoch g))
  return (genesisBlock, 0, firstEpoch g)

/-- What `from_genesis` does once the genesis file is found valid. -/
def loadOrInit (g : GenesisConfig) (genesisBlock : Block) :
    InitM σ (Option (Block × ℕ × EpochInfo)) := do
  match ← fetch getGenesisHash with
  | some existing =>
    if existing ≠ genesisBlock.hash P then
      throw (.stateTransition "genesis hash mismatch with existing database")
    else reload g
  | none => some <$> initChain P g genesisBlock

/-- **`ChainState::from_genesis`**: the result and the database afterwards. The value `none` of the
result is a panic: no validator to build the genesis block from, or an epoch length of zero. -/
def fromGenesis (g : GenesisConfig) (storage : σ) :
    Except ConsensusError (Option (ChainState σ)) × σ :=
  match g.validate with
  | .error e => (.error (.core e), storage)
  | .ok _ =>
    match g.toGenesisBlock with
    | none => (.ok none, storage)
    | some genesisBlock =>
      let r := (loadOrInit P g genesisBlock).run storage
      (r.1.map fun p => p.map fun q => ⟨q.1, q.2.1, q.2.2, r.2⟩, r.2)

end

end Rustchain.Consensus
